import Eleos.Mem5.Theorems
import Eleos.Rpc.Theorems
import Eleos.Pager.Theorems
import Eleos.Pager.PointerTheorems
import Eleos.Pool.Theorems
import Eleos.Server.Theorems
import Eleos.Server.TableTheorems
import Eleos.Server.UpdateTheorems
import Eleos.Direct.Theorems
import Eleos.Edger.Theorems
import Eleos.Face.Theorems
import Eleos.Face.PatternTheorems
import Eleos.Libc.Theorems
import Eleos.Libc.TypedTheorems
import Eleos.Threads.Theorems
import Eleos.Shared.Theorems
import Eleos.Rpc.LockedTheorems
import Eleos.Rpc.FairTheorems
import Eleos.Pager.LockedTheorems
import Eleos.Mem5.ObjectTheorems
import Eleos.Edger.BridgeTheorems
