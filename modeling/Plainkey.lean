import Plainkey.Go
import Plainkey.KeyData
import Plainkey.Reference
import Plainkey.Store
import Plainkey.Recover
import Plainkey.Correct
import Plainkey.Interleave
import Plainkey.Safety
import Plainkey.Order
import Plainkey.Slice
import Plainkey.Memory
import Plainkey.Refine
import Plainkey.Liveness
