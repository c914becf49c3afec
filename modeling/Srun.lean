import Srun.Agreement
import Srun.Capture
import Srun.Client
import Srun.CommandLine
import Srun.Credentials
import Srun.Daemon
import Srun.Descriptors
import Srun.Dialogue
import Srun.Disconnect
import Srun.Encoding
import Srun.Ending
import Srun.Execute
import Srun.Execution
import Srun.ExitStatus
import Srun.Framing
import Srun.Heartbeat
import Srun.Isolation
import Srun.Launch
import Srun.Leaving
import Srun.Lifetime
import Srun.Limits
import Srun.Listing
import Srun.Locking
import Srun.Lookup
import Srun.Options
import Srun.Outcome
import Srun.Overlay
import Srun.Overloads
import Srun.Pids
import Srun.Precedence
import Srun.Progress
import Srun.ReadFile
import Srun.Redirect
import Srun.Registration
import Srun.Rejection
import Srun.Renewal
import Srun.Schemas
import Srun.Sending
import Srun.Serving
import Srun.Stopping
import Srun.Verdict
import Srun.Waiting
import Srun.Wakeup
import Srun.Watching
import Srun.WriteFile
