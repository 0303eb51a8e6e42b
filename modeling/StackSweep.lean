import StackSweep.Simulation.Minimal
import StackSweep.Simulation.Nesting
import StackSweep.Simulation.Passage
import StackSweep.Simulation.Session
import StackSweep.Proofs.Chronicle
import StackSweep.Proofs.Passing
import StackSweep.Proofs.Turning
import StackSweep.Proofs.Site
import StackSweep.Proofs.Accounting
import StackSweep.Proofs.Dating
import StackSweep.Proofs.Keeping
import StackSweep.Proofs.Safety
import StackSweep.Proofs.Campaigns
import StackSweep.Proofs.Endings
import StackSweep.Proofs.Drains
import StackSweep.Proofs.Publications
import StackSweep.Proofs.Progress
import StackSweep.Proofs.Readers
import StackSweep.Proofs.Buffer
import StackSweep.Proofs.Scopes
import StackSweep.Proofs.Overlaps
import StackSweep.Proofs.Splitting
import StackSweep.Proofs.Bustle
import StackSweep.Proofs.Orders
import StackSweep.Proofs.Refusals
import StackSweep.Proofs.Starting
import StackSweep.Proofs.Retries
import StackSweep.Proofs.Backing
import StackSweep.Proofs.Spells
import StackSweep.Proofs.Assertions
import StackSweep.Proofs.Preserving
import StackSweep.Proofs.Stops
import StackSweep.Proofs.Finishing
import StackSweep.Proofs.Resting
import StackSweep.Proofs.Tandem
import StackSweep.Proofs.Oblivion
import StackSweep.Proofs.Steadfast
import StackSweep.Proofs.Calm
import StackSweep.Proofs.Securing
import StackSweep.Proofs.Sufficing
import StackSweep.Proofs.Unwinding
import StackSweep.Proofs.Broadcasts
import StackSweep.Proofs.Counting
import StackSweep.Proofs.Exits
import StackSweep.Proofs.Crossing
import StackSweep.Proofs.Increments
import StackSweep.Proofs.Yields
import StackSweep.Proofs.Lagging
import StackSweep.Proofs.Lowest
import StackSweep.Proofs.Numerals
import StackSweep.Proofs.Settings
