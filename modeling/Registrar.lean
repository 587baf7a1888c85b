import Registrar.Main
import Registrar.Scenario.Bench
import Registrar.Scenario.Session
import Registrar.Proofs.Attention
import Registrar.Proofs.Crowd
import Registrar.Proofs.Seat
import Registrar.Proofs.Crowd.Order
import Registrar.Proofs.Mint
import Registrar.Proofs.Crowd.Served
import Registrar.Proofs.Mint.Course
import Registrar.Proofs.Mint.Exclusion
import Registrar.Proofs.Counter
import Registrar.Proofs.Mint.Numbers
import Registrar.Proofs.Mint.GapFree
import Registrar.Proofs.Mint.Recurrence
import Registrar.Proofs.Mint.Leak
import Registrar.Proofs.Mint.Machine
import Registrar.Proofs.Claims
import Registrar.Proofs.Crowd.Trace
import Registrar.Proofs.Crowd.Ledger
import Registrar.Proofs.Office
import Registrar.Proofs.Office.Entries
import Registrar.Proofs.Office.Issue
import Registrar.Proofs.Office.Rotation
import Registrar.Proofs.Office.Retry
import Registrar.Proofs.Office.Counters
import Registrar.Proofs.Service
import Registrar.Proofs.Service.Aside
import Registrar.Proofs.Service.Sessions
import Registrar.Proofs.Service.VisitLog
import Registrar.Proofs.Living
import Registrar.Proofs.Crowd.Dealing
import Registrar.Proofs.Mint.Outcome
import Registrar.Proofs.Crowd.Latch
import Registrar.Proofs.Calendar
import Registrar.Proofs.Calendar.Midnight
import Registrar.Proofs.Service.Prompt
import Registrar.Proofs.Service.Straight
import Registrar.Proofs.Server
import Registrar.Proofs.Text.Utf8
import Registrar.Proofs.Shell
import Registrar.Proofs.Service.Barred
import Registrar.Proofs.Server.Shutdown
import Registrar.Proofs.Crowd.Hearing
import Registrar.Proofs.Office.Verdict
import Registrar.Proofs.Crowd.UpToErrors
import Registrar.Proofs.Office.Faults
import Registrar.Proofs.Claims.Spelling
import Registrar.Proofs.Service.Welcome
import Registrar.Proofs.Crowd.Since
import Registrar.Proofs.Register.History
import Registrar.Proofs.Register.Lapse
import Registrar.Proofs.Redis.Claiming
import Registrar.Proofs.Crowd.Realm
import Registrar.Proofs.Crowd.Confined
import Registrar.Proofs.Mint.Apart
import Registrar.Proofs.Context.Family
import Registrar.Proofs.Context.Polled
import Registrar.Proofs.Context.Punctual
import Registrar.Proofs.Context.Bound
import Registrar.Proofs.Service.Numbering
import Registrar.Proofs.Service.Sparing
import Registrar.Proofs.Server.Batch
import Registrar.Proofs.Server.Sound
import Registrar.Proofs.Mint.Block
import Registrar.Proofs.Server.Printed
import Registrar.Proofs.Server.Sequence
import Registrar.Proofs.Calendar.Order
import Registrar.Proofs.Rendering
import Registrar.Proofs.Server.Rendered
import Registrar.Proofs.Server.Dated
import Registrar.Proofs.Redis.Retention
