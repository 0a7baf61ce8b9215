import ServiceModel.Main
import ServiceModel.Model.Read
import ServiceModel.Proofs.Build.Listing
import ServiceModel.Proofs.Build.Presence
import ServiceModel.Proofs.Build.Requests
import ServiceModel.Proofs.Descriptor.Comments
import ServiceModel.Proofs.Descriptor.Queries
import ServiceModel.Proofs.Enrichment.OrderFree
import ServiceModel.Proofs.Mixin.Again
import ServiceModel.Proofs.OpenApi.FieldNames
import ServiceModel.Proofs.OpenApi.Inlines
import ServiceModel.Proofs.OpenApi.RequestFields
import ServiceModel.Proofs.PathTemplate.RoundTrip
import ServiceModel.Proofs.Resolution.Report
import ServiceModel.Proofs.Routing.Offsets
import ServiceModel.Model.TableCall
import ServiceModel.Proofs.SymbolTable.LifeCycle
import ServiceModel.Proofs.Data.JsonForm
import ServiceModel.Proofs.Data.Spelling
import ServiceModel.Proofs.Descriptor.Spelling
import ServiceModel.Proofs.Http.Carriage
import ServiceModel.Proofs.Http.Pairing
import ServiceModel.Proofs.Model.ReadBack
import ServiceModel.Proofs.Model.Aliases
import ServiceModel.Proofs.OpenApi.Parameters
import ServiceModel.Proofs.OpenApi.Termination
