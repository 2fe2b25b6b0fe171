import DataLink.Medium
import DataLink.Proofs.Rlc.RoundTrip
import DataLink.Proofs.Arq.Window
import DataLink.Proofs.Arq.Counting
import DataLink.Proofs.Arq.Exchange
import DataLink.Proofs.Call
import DataLink.Proofs.Station.Upper
import DataLink.Proofs.Station.SlotSize
import DataLink.Proofs.Station.Slots
import DataLink.Proofs.Station.Calls
import DataLink.Proofs.Station.TearDown
import DataLink.Proofs.Arq.Reception
import DataLink.Proofs.Arq.AnyChannel
import DataLink.Proofs.Rlc.Ledger
import DataLink.Proofs.Rlc.Losses
import DataLink.Proofs.Refusal
import DataLink.Proofs.Mac.Schedule
import DataLink.Proofs.Mac.LinkTables
import DataLink.Proofs.Arq.Budget
import DataLink.Proofs.Station.Bystander
import DataLink.Proofs.Grammar
import DataLink.Proofs.Station.Linking
import DataLink.Proofs.Station.Links
import DataLink.Proofs.Station.Crossings
import DataLink.Proofs.Station.Requests
import DataLink.Proofs.Station.Moves
import DataLink.Proofs.Station.Sending
import DataLink.Proofs.Station.Work
import DataLink.Proofs.Station.Neighbors
import DataLink.Proofs.Station.Network
import DataLink.Proofs.Arq.Peers
import DataLink.Proofs.Arq.Release
import DataLink.Proofs.Mac.Asking
import DataLink.Proofs.Rlc.Serving
import DataLink.Proofs.Rlc.Recognition
import DataLink.Proofs.Arq.Runs
import DataLink.Proofs.RejectMap
import DataLink.Proofs.Arq.Gaps
import DataLink.Proofs.Arq.Debt
import DataLink.Proofs.Rlc.Control
import DataLink.Proofs.Station.Demand
import DataLink.Proofs.Neighbors
import DataLink.Proofs.Mac.Turns
import DataLink.Proofs.Mac.Hearing
import DataLink.Proofs.Rlc.Overflow
import DataLink.Proofs.Arq.Bookkeeping
import DataLink.Proofs.Station.Sublayers
import DataLink.Proofs.Rlc.Shells
import DataLink.Proofs.Arq.Steps
