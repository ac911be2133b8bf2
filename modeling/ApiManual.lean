import ApiManual.Description.Builder
import ApiManual.Json.Reader
import ApiManual.Main
import ApiManual.Manual.Generator
import ApiManual.Proofs.Manual.Steps
import ApiManual.Proofs.Manual.Writing
import ApiManual.Proofs.Asciidoc.Inclusion
import ApiManual.Proofs.Asciidoc.Listing
import ApiManual.Proofs.FileSystem
import ApiManual.Proofs.Json.Lines
import ApiManual.Proofs.Json.Numerals
import ApiManual.Proofs.Manual.Injection
import ApiManual.Proofs.Manual.Nesting
import ApiManual.Proofs.Manual.Run
import ApiManual.Proofs.Manual.Inclusions
import ApiManual.Proofs.Manual.Siblings
import ApiManual.Proofs.Manual.Collisions
import ApiManual.Proofs.Manual.Frame
import ApiManual.Proofs.Text.Order
import ApiManual.Proofs.Manual.Locality
import ApiManual.Proofs.Asciidoc.Substitution
import ApiManual.Proofs.Asciidoc.Outline
import ApiManual.Proofs.Manual.SingleDocument
import ApiManual.Proofs.Manual.Assembly
import ApiManual.Proofs.Validation.Agreement
import ApiManual.Proofs.Validation.Correspondence
import ApiManual.Proofs.Manual.Rearranged
import ApiManual.Proofs.Validation.Reordering
import ApiManual.Proofs.Validation.Rules
import ApiManual.Proofs.Validation.Meaning
import ApiManual.Proofs.Validation.Tables
import ApiManual.Proofs.Descriptor
import ApiManual.Proofs.Yaml.Steps
import ApiManual.Proofs.Yaml.Splicing
import ApiManual.Proofs.Yaml.Making
import ApiManual.Proofs.Yaml.UniqueKeys
import ApiManual.Proofs.Yaml.Unchecked
import ApiManual.Proofs.Naming
import ApiManual.Proofs.Json.Syntax
import ApiManual.Proofs.Json.Reading
import ApiManual.Proofs.Json.Written
import ApiManual.Proofs.Json.Unquoted
import ApiManual.Proofs.Json.AsYaml.Fragment
import ApiManual.Proofs.Json.AsYaml.Strings
import ApiManual.Proofs.Json.AsYaml.Numbers
import ApiManual.Proofs.Json.AsYaml.Gaps
import ApiManual.Proofs.Json.AsYaml.Tokens
import ApiManual.Proofs.Json.AsYaml.Nodes
import ApiManual.Proofs.Json.AsYaml.Values
import ApiManual.Proofs.Json.AsYaml.Agreement
import ApiManual.Proofs.Validation.Accepted
import ApiManual.Proofs.CatalogBuilder
import ApiManual.Proofs.Validation.WellFormed
import ApiManual.Proofs.Validation.NormalForm
import ApiManual.Proofs.Manual.Failures
import ApiManual.Proofs.Manual.SchemaText
import ApiManual.Proofs.Manual.Generator
import ApiManual.Proofs.CommandLine.Parsing
import ApiManual.Proofs.CommandLine.Validate
import ApiManual.Proofs.Respelling
import ApiManual.Proofs.Namespace.NormalForm
import ApiManual.Proofs.Validation.Classification
import ApiManual.Proofs.Registry
import ApiManual.Proofs.CatalogBuilder.EntryByEntry
import ApiManual.Proofs.Manual.OperationTables
