import Hooq.Library.Walk
import Hooq.Objects.Lookup
import Hooq.Script.InsertionOrder
import Hooq.Script.Recording
import Hooq.Script.Frame
import Hooq.Script.Variables
import Hooq.Script.Typing
import Hooq.Playback.Decoder
import Hooq.Playback.Encoder
import Hooq.Playback.Wire
import Hooq.Recording.Records
import Hooq.Script.Parse
import Hooq.Script.RemoteObject
import Hooq.Script.Replay
import Hooq.Library.Run
import Hooq.Recording.Logger
import Hooq.Recording.DragBuffer
import Hooq.Playback.Player
import Hooq.Playback.Answers
import Hooq.Playback.Conservation
import Hooq.Playback.Session
import Hooq.Playback.Stream
import Hooq.Playback.Acknowledgement
import Hooq.Playback.Interleaving
import Hooq.Playback.Activity
import Hooq.Playback.Orderly
import Hooq.Playback.Targets
import Hooq.Recording.RawReplay
import Hooq.Script.Declarations
import Hooq.Script.Survival
import Hooq.Script.Completion
import Hooq.Library.Tags
import Hooq.Recording.Document
import Hooq.Library.Framing
import Hooq.Storage.DataStream
import Hooq.Storage.TestSetBackup
import Hooq.Storage.RoundTrip
import Hooq.Control.Attachment
import Hooq.Control.Documents
import Hooq.Control.Sessions
import Hooq.Control.Replies
import Hooq.Control.ReplyStream
import Hooq.Playback.Nesting
import Hooq.Playback.Underway
import Hooq.Playback.Stalling
import Hooq.Playback.Closing
import Hooq.Playback.Shutdown
import Hooq.Library.StringLiteral
import Hooq.Qt.Unicode
import Hooq.Script.Literals
import Hooq.Script.Movements
import Hooq.Qt.PlaceMarkers
import Hooq.Script.Serialize
import Hooq.Script.Statements
import Hooq.Qt.XmlDocument
import Hooq.Script.Reading
import Hooq.Editor.Document
import Hooq.Editor.Running
import Hooq.Library.Paths
import Hooq.Storage.Confinement
import Hooq.Script.Identifiers
import Hooq.Script.Naming
import Hooq.Library.Expression
import Hooq.Script.Parameters
import Hooq.Script.Arguments
import Hooq.Script.Removal
import Hooq.Script.TextVariables
import Hooq.Script.MouseSteps
import Hooq.Script.Retyping
import Hooq.Script.Pairing
import Hooq.Storage.Interruption
import Hooq.Control.Properties
import Hooq.Control.NotFound
import Hooq.Playback.Chunks
import Hooq.Storage.Readers
import Hooq.Storage.Format
import Hooq.Objects.PathSyntax
import Hooq.Objects.Chains
import Hooq.Recording.Canaries
import Hooq.Control.Connections
import Hooq.Recording.DragOrigin
import Hooq.Qt.Utf8
import Hooq.Storage.ScriptPaths
import Hooq.Storage.TestNames
import Hooq.Editor.Shown
import Hooq.Qt.Refills
import Hooq.Editor.Assertion
import Hooq.Editor.ReadBack
import Hooq.Editor.Insertion
import Hooq.Control.GdbInjector
import Hooq.Editor.Breakpoints
import Hooq.Library.Matches
import Hooq.Editor.Replacing
import Hooq.Objects.SiblingNames
import Hooq.Editor.HighlightCalls
import Hooq.Editor.Highlighting
import Hooq.Editor.HighlightWords
import Hooq.Playback.CatchingUp
import Hooq.Playback.Entries
import Hooq.Playback.Rerun
import Hooq.Playback.ScriptRun
import Hooq.Library.Program
import Hooq.Script.Calls
import Hooq.Script.ScriptText
import Hooq.Editor.AllTests
import Hooq.Editor.Results
