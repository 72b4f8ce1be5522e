import TolerantParser.Driver.Parse
import TolerantParser.Mini.Automaton
import TolerantParser.Mini.Lexer
import TolerantParser.Proofs.Driver.PlainRun
import TolerantParser.Proofs.Driver.Reading
import TolerantParser.Proofs.Driver.Edits
import TolerantParser.Proofs.Driver.Conservative
import TolerantParser.Proofs.Driver.SetAside
import TolerantParser.Proofs.Driver.Reachable
import TolerantParser.Proofs.Driver.Stream
import TolerantParser.Proofs.Driver.Blame
import TolerantParser.Proofs.Mini.MarkerReading
import TolerantParser.Proofs.Mini.Respelling
import TolerantParser.Proofs.Mini.Expression.Completeness
import TolerantParser.Proofs.Mini.Expression.Language
import TolerantParser.Proofs.Mini.Agreement
import TolerantParser.Proofs.Mini.Completion
import TolerantParser.Proofs.Mini.DocComments.Files
import TolerantParser.Proofs.Mini.Separators.Omission
import TolerantParser.Proofs.Mini.Frontier.Streams
import TolerantParser.Proofs.Mini.EndOfFile
import TolerantParser.Proofs.Mini.Items.Grammar
import TolerantParser.Proofs.Mini.Items.Soundness
import TolerantParser.Proofs.Mini.Items.Completeness
import TolerantParser.Proofs.Mini.Items.Phrases
import TolerantParser.Proofs.Mini.Expression.Operands
import TolerantParser.Proofs.Mini.Items.Documented
import TolerantParser.Proofs.Mini.Items.Language
import TolerantParser.Proofs.Driver.Lockstep
import TolerantParser.Proofs.Driver.Renaming
import TolerantParser.Proofs.Mini.Renaming
import TolerantParser.Proofs.Driver.SourceOrder
import TolerantParser.Proofs.Mini.Resumes
import TolerantParser.Proofs.Mini.Trees.WellFormed
import TolerantParser.Proofs.Mini.Trees.Spelling
import TolerantParser.Proofs.Mini.Trees.MarkerRuns
import TolerantParser.Proofs.Mini.FusedLabels.Decisions
import TolerantParser.Proofs.Mini.FusedLabels.Respelling
import TolerantParser.Proofs.Driver.Chunks
import TolerantParser.Proofs.Driver.Candidates
import TolerantParser.Proofs.Mini.Separators.SinglePhrase
import TolerantParser.Proofs.Mini.Lossless
import TolerantParser.Proofs.TagSet
import TolerantParser.Proofs.Docstrings
import TolerantParser.Proofs.Driver.Splitting
import TolerantParser.Proofs.Mini.UseFile
