import PveMaster.Models.Operation

/-! The Proxmox API as the runners use it.

A request carries what the runner sends, a reply what it reads of the answer. An
answer is any value of the reply type, an `AppError` the client makes of a
transport or HTTP failure, or another exception a library lets through. -/
namespace PveMaster

inductive Request where
  | getGuests
  | getNodes
  | getTaskStatus (node upid : String)
  | getTaskLog (node upid : String)
  | getGuestStatus (kind : WorkloadKind) (node : String) (vmid : Int)
  | getGuestConfig (kind : WorkloadKind) (node : String) (vmid : Int)
  | getVmStatus (node : String) (vmid : Int)
  | getBackupContent (node storage : String) (vmid : Int)
  | submitGuestPowerAction (kind : WorkloadKind) (node : String) (vmid : Int) (action : PowerAction)
  | configureGuest (kind : WorkloadKind) (node : String) (vmid cores memoryMib : Int)
  | resizeGuestDisk (kind : WorkloadKind) (node : String) (vmid : Int) (disk : String)
      (sizeBytes : Int)
  | deleteGuest (kind : WorkloadKind) (node : String) (vmid : Int)
  | submitGuestBackup (node : String) (vmid : Int) (storage mode compression : String)
  | submitGuestRestore (kind : WorkloadKind) (node archive : String) (vmid : Int) (name : String)
  | cloneQemuTemplate (sourceNode : String) (sourceVmid : Int) (targetNode : String)
      (targetVmid : Int) (name storage : String)
  | configureQemu (node : String) (vmid : Int) (values : List (String × String))
  | resizeQemuDisk (node : String) (vmid : Int) (disk : String) (sizeBytes : Int)
  | submitVmPowerAction (node : String) (vmid : Int) (action : String)
  deriving DecidableEq

def Reply : Request → Type
  | .getGuests | .getNodes | .getTaskLog .. | .getBackupContent .. => List Dict
  | .getTaskStatus .. | .getGuestStatus .. | .getGuestConfig .. | .getVmStatus .. => Dict
  | .submitGuestPowerAction .. | .deleteGuest .. | .submitGuestBackup .. | .submitGuestRestore ..
  | .cloneQemuTemplate .. | .submitVmPowerAction .. => String
  | .configureGuest .. | .resizeGuestDisk .. | .configureQemu .. | .resizeQemuDisk .. => Unit

/-- Whether the request asks Proxmox to change something. -/
def Request.mutating : Request → Bool
  | .getGuests | .getNodes | .getTaskStatus .. | .getTaskLog .. | .getGuestStatus ..
  | .getGuestConfig .. | .getVmStatus .. | .getBackupContent .. => false
  | _ => true

/-- An answer for every request that could be made at a moment. -/
def Answers : Type := (r : Request) → Except Exn (Reply r)

end PveMaster
