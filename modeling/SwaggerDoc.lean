import SwaggerDoc.Main
import SwaggerDoc.Proofs.CommandLine.Failing
import SwaggerDoc.Proofs.CommandLine.Formats
import SwaggerDoc.Proofs.CommandLine.Json
import SwaggerDoc.Proofs.CommandLine.Strict
import SwaggerDoc.Proofs.CommandLine.Summary
import SwaggerDoc.Proofs.Definition.Labels
import SwaggerDoc.Proofs.Definition.Modifiers
import SwaggerDoc.Proofs.Definition.Required
import SwaggerDoc.Proofs.Definition.WellFormed
import SwaggerDoc.Proofs.Document.Alike
import SwaggerDoc.Proofs.Document.Faults
import SwaggerDoc.Proofs.Document.Options
import SwaggerDoc.Proofs.Document.Parameters
import SwaggerDoc.Proofs.Document.References
import SwaggerDoc.Proofs.Document.Reordered
import SwaggerDoc.Proofs.Document.Selection
import SwaggerDoc.Proofs.Document.Writable
import SwaggerDoc.Proofs.Resource.Methods
import SwaggerDoc.Proofs.Resource.Routes
import SwaggerDoc.Proofs.ResourceFile.Json
import SwaggerDoc.Proofs.ResourceFile.Reported
import SwaggerDoc.Proofs.Session.Frame
import SwaggerDoc.Proofs.Session.Unshared
import SwaggerDoc.Proofs.Session.Validated
import SwaggerDoc.Session.Basic
