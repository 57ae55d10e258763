import Dalvik.Main
import Dalvik.Proofs.Binary.Amounts
import Dalvik.Proofs.Binary.Recoding
import Dalvik.Proofs.Descriptor.Spelling
import Dalvik.Proofs.Listing.Arguments
import Dalvik.Proofs.Listing.Constants
import Dalvik.Proofs.Listing.Outcome
import Dalvik.Proofs.Lift.Consistency
import Dalvik.Proofs.Lift.Independence
import Dalvik.Proofs.Lift.Renaming
import Dalvik.Proofs.Placement
import Dalvik.Proofs.Pool
import Dalvik.Proofs.Reaching.Termination
import Dalvik.Proofs.Lowering.Generations
import Dalvik.Proofs.Lowering.Outcome
import Dalvik.Proofs.Lowering.Recording
import Dalvik.Proofs.Lowering.Trace
import Dalvik.Proofs.Lift.Definitions
import Dalvik.Proofs.Lift.Segments
import Dalvik.Proofs.Lift.Literals
import Dalvik.Proofs.Lift.Jumps
import Dalvik.Proofs.Lift.Order
import Dalvik.Proofs.Lift.Webs
import Dalvik.Proofs.Lift.Ranges
import Dalvik.Proofs.Lift.Traps
import Dalvik.Proofs.Typing.Assignment
import Dalvik.Proofs.Typing.Contracts
import Dalvik.Proofs.Typing.Joins
import Dalvik.Proofs.Flow.Acceptance
import Dalvik.Proofs.Reaching.Halves
import Dalvik.Proofs.Reaching.Lattice
import Dalvik.Proofs.Reaching.Routes
