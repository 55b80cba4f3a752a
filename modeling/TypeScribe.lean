import TypeScribe.Main
import TypeScribe.Parser.Recipe
import TypeScribe.Proofs.Annotate.Constructors
import TypeScribe.Proofs.Annotate.Initializers
import TypeScribe.Proofs.Annotate.Provenance
import TypeScribe.Proofs.Annotate.Signatures
import TypeScribe.Proofs.Annotate.SiteOrder
import TypeScribe.Proofs.Command.InPlace
import TypeScribe.Proofs.Command.Position
import TypeScribe.Proofs.Dump.Delimited
import TypeScribe.Proofs.Dump.Faithful
import TypeScribe.Proofs.Dump.Find
import TypeScribe.Proofs.Dump.RoundTrip
import TypeScribe.Proofs.Parser.Alternation
import TypeScribe.Proofs.Parser.Quoted
import TypeScribe.Proofs.Parser.Relocation
import TypeScribe.Proofs.Parser.Repetition
import TypeScribe.Proofs.Parser.Termination
import TypeScribe.Proofs.Source.Characters
import TypeScribe.Proofs.SwiftType.Respelling
import TypeScribe.Proofs.Command.Outline
import TypeScribe.Proofs.Source.Patterns
import TypeScribe.Proofs.Source.Signature
import TypeScribe.Proofs.Source.Walks
