import Bano.Lib.Heap
import Bano.Lib.Chain
import Bano.Lib.Run
import Bano.Lib.Xtea
import Bano.Lib.Channel
import Bano.Lib.Digits
import Bano.BanoList
import Bano.ListRefinement
import Bano.Timer
import Bano.TimerDeletion
import Bano.LinkedList
import Bano.Store
import Bano.Message
import Bano.Cipher
import Bano.Node
import Bano.TimerTail
import Bano.Base
import Bano.Setup
import Bano.Firmware
import Bano.Posting
import Bano.Release
import Bano.Frames
import Bano.Loop
import Bano.Steps
import Bano.Faces
import Bano.Tracking
import Bano.Migration
import Bano.Carried
import Bano.Ledger
import Bano.Completion
import Bano.LifeCycle
import Bano.Lasting
import Bano.Progress
import Bano.Origins
import Bano.Accounts
import Bano.Retry
import Bano.Http
import Bano.Described
import Bano.StoreMeaning
import Bano.ClearFrames
import Bano.Exchange
import Bano.LaterSet
import Bano.Addresses
import Bano.Closing
import Bano.Deadlines
import Bano.WakeUps
import Bano.Keywords
import Bano.Numerals
import Bano.Disclosure
import Bano.Uses
import Bano.Lib.Cpu
import Bano.Avr
import Bano.Sleep
import Bano.Expiry
import Bano.Missed
import Bano.SocketFailure
import Bano.Dict
import Bano.DictMap
import Bano.Lib.Outcome
import Bano.Parser
import Bano.ParserItems
import Bano.ParserTermination
import Bano.Tokens
import Bano.Grammar
import Bano.Layout
import Bano.Buffers
import Bano.Entries
import Bano.Descriptions
import Bano.KeyLookups
import Bano.Lib.Orders
import Bano.Settings
import Bano.KeyvalSettings
import Bano.Loading
import Bano.NodlDir
import Bano.PairOrders
import Bano.Allocations
import Bano.TopDir
import Bano.Lib.Bytes
import Bano.Html
import Bano.Answers
import Bano.Forms
import Bano.Lib.Raster
import Bano.Flip
import Bano.Pixels
import Bano.Sms
import Bano.Credentials
import Bano.SmsSection
import Bano.Lib.Turns
import Bano.Iteration
import Bano.Writing
import Bano.SizeT
import Bano.Scanning
import Bano.Records
import Bano.Confined
import Bano.Agreement
import Bano.Lib.Simulation
import Bano.Lib.Fuel
import Bano.EventLoop
import Bano.Housed
import Bano.Room
import Bano.TurnSteps
import Bano.Serving
import Bano.Clients
import Bano.Lib.Rank
import Bano.Handoff
import Bano.Waiting
import Bano.Camera
import Bano.Lib.Holding
import Bano.Lib.Writes
import Bano.Lib.Yields
import Bano.Streams
import Bano.Pictures
import Bano.Captures
import Bano.Filming
import Bano.Lib.Queue
import Bano.Queues
