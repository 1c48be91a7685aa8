import TimedTasks.Proofs.Hosted
import TimedTasks.Proofs.Deadline
import TimedTasks.Proofs.Period
import TimedTasks.Proofs.Stop
import TimedTasks.Proofs.Exclusion
import TimedTasks.Proofs.Roster
import TimedTasks.Proofs.Restart
import TimedTasks.Proofs.Origin.Scripts
import TimedTasks.Proofs.Custody
import TimedTasks.Proofs.Sessions
import TimedTasks.Proofs.Renewal
import TimedTasks.Proofs.Shutdown
import TimedTasks.Proofs.Holdings
import TimedTasks.Proofs.Integrity
import TimedTasks.Proofs.Refusals
import TimedTasks.Proofs.Allocation
import TimedTasks.Proofs.Indices
import TimedTasks.Proofs.Requests
import TimedTasks.Proofs.Tours
import TimedTasks.Proofs.Dues
import TimedTasks.Proofs.Arming
import TimedTasks.Proofs.Lengths
