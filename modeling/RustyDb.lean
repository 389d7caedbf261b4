import RustyDb.Python.Str
import RustyDb.Python.Regex
import RustyDb.Python.RegexSpec
import RustyDb.Python.Substitution
import RustyDb.WebSocket.Json
import RustyDb.WebSocket.Client
import RustyDb.WebSocket.Correlation
import RustyDb.WebSocket.Authentication
import RustyDb.WebSocket.Streaming
import RustyDb.Fixers.Common
import RustyDb.Fixers.FixFinal
import RustyDb.Fixers.FixRemaining
import RustyDb.Fixers.FixDuplicates
import RustyDb.Fixers.FixRustErrors
import RustyDb.Fixers.FixImports
import RustyDb.Fixers.FixBuild
import RustyDb.Fixers.Renaming
import RustyDb.Fixers.Deduplication
import RustyDb.Fixers.Insertion
import RustyDb.Fixers.Detection
import RustyDb.Fixers.Underscores
import RustyDb.Fixers.Routes
import RustyDb.Fixers.FixDeadCode
import RustyDb.Fixers.StructFields
import RustyDb.Fixers.LetBinders
import RustyDb.Fixers.CargoOutput
import RustyDb.Fixers.BuildRun
import RustyDb.Fixers.ParamLines
import RustyDb.Fixers.SourceTree
import RustyDb.Fixers.WordRuns
import RustyDb.Fixers.LineRerun
