import SyncPlan.Main
import SyncPlan.Proofs.Ancestry
import SyncPlan.Proofs.Lookup
import SyncPlan.Proofs.Discovery
import SyncPlan.Proofs.RelativeStart
import SyncPlan.Proofs.Numerals
import SyncPlan.Proofs.UriCheck
import SyncPlan.Proofs.EndpointParts
import SyncPlan.Proofs.Authority
import SyncPlan.Proofs.CommandLine.Items
import SyncPlan.Proofs.CommandLine.Spelling
import SyncPlan.Proofs.CommandLine.Given
import SyncPlan.Proofs.CommandLine.Meaning
import SyncPlan.Proofs.CommandLine.Splitting
import SyncPlan.Proofs.CommandLine.Taking
import SyncPlan.Proofs.CommandLine.Outcome
import SyncPlan.Proofs.Precedence
import SyncPlan.Proofs.RateGrammar
import SyncPlan.Proofs.Resolution
import SyncPlan.Proofs.Settings
import SyncPlan.Proofs.Stages
import SyncPlan.Proofs.Userinfo
import SyncPlan.Proofs.Disclosure
import SyncPlan.Proofs.Lineage
import SyncPlan.Proofs.NearestFile
import SyncPlan.Proofs.EndpointGrammar
import SyncPlan.Proofs.ObjectKeys
import SyncPlan.Proofs.Text.Decimal
import SyncPlan.Proofs.Text.Escapes
import SyncPlan.Proofs.Json.Grammar
import SyncPlan.Proofs.Json.Reader
import SyncPlan.Proofs.Json.Writing
import SyncPlan.Proofs.Json.Report
import SyncPlan.Proofs.ConfigFile.Pairs
import SyncPlan.Proofs.Toml.Writing
import SyncPlan.Proofs.Toml.Pairs
import SyncPlan.Proofs.Text.Utf8
import SyncPlan.Proofs.Text.Percent
import SyncPlan.Proofs.Text.Undecodable
import SyncPlan.Proofs.Toml.RoundTrip
import SyncPlan.Proofs.Yaml.Scalars
import SyncPlan.Proofs.Yaml.Scanning
import SyncPlan.Proofs.Yaml.Reading
import SyncPlan.Proofs.Yaml.Events
import SyncPlan.Proofs.Yaml.Numerals
import SyncPlan.Proofs.Yaml.Pairs
import SyncPlan.Proofs.Yaml.Rows
import SyncPlan.Proofs.Yaml.Writing
import SyncPlan.Proofs.Yaml.RoundTrip
import SyncPlan.Proofs.ConfigFile.Flat
import SyncPlan.Proofs.ConfigFile.Unreadable
import SyncPlan.Proofs.UpwardSearch
import SyncPlan.Proofs.OneFile
import SyncPlan.Proofs.Toml.Integers
import SyncPlan.Proofs.IntegerOptions
import SyncPlan.Proofs.NormalForm
import SyncPlan.Proofs.Permissions
import SyncPlan.Proofs.LocalPaths
import SyncPlan.Proofs.BoldLabels
import SyncPlan.Proofs.Yaml.Exchange
import SyncPlan.Proofs.ConfigFile.SwitchedFile
import SyncPlan.Proofs.RewrittenFile
import SyncPlan.Proofs.DiagnosticSettings
import SyncPlan.Proofs.Milestones
import SyncPlan.Proofs.Components
import SyncPlan.Proofs.Respelling
