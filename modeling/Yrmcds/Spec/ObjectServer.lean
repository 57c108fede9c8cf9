/-
What a retrieval of the command line tool talks to, and what it prints
there.

A server answers the requests of a connection one after the other: a
retrieval with the object, or with a refusal, and a `Noop` always. A quiet
retrieval is answered exactly when the object is there.

`Prints` is about the runs of a process in which the network, the
allocator and standard output do their part: there is one that exits, and
each one that exits has written the same bytes.
-/
import Yrmcds.Model.Yc
import Yrmcds.Spec.RequestFormat
import Yrmcds.Spec.Retrieval

namespace Yrmcds

open Gather

namespace Yc

-- ================================================================ objects

/-- What a server stores under a key. -/
structure Object where
  flags : UInt32
  payload : List UInt8
  casUnique : UInt64

/-- The data an object stands for. A payload that is marked compressed and
does not decode stands for none. -/
def Object.data (lz : Lz4) (compression : Nat) (o : Object) : List UInt8 :=
  match unpackIfMarked lz compression o.flags o.payload with
  | some (_, data) => data
  | none => []

/-- The objects of a server, the keys under which another connection holds
the lock, and the texts of its refusals. A key and an object fit the length
fields of a packet. -/
structure Server where
  content : List UInt8 → Option Object
  lockedOut : List UInt8 → Bool
  text : Status → List UInt8
  key_ne_nil : ∀ {key o}, content key = some o → key ≠ []
  key_lt : ∀ {key o}, content key = some o → key.length < 2 ^ 16
  object_lt : ∀ {key o}, content key = some o →
    4 + key.length + o.payload.length < 2 ^ 32
  text_lt : ∀ status, (text status).length < 2 ^ 32

-- ================================================================ answers

/-- How retrievals differ. -/
structure Kind where
  quiet : Bool
  withKey : Bool
  locks : Bool

/-- The retrievals among the commands of the protocol. -/
def kindOf : Command → Option Kind
  | .get => some ⟨false, false, false⟩
  | .getQ => some ⟨true, false, false⟩
  | .getK => some ⟨false, true, false⟩
  | .getKQ => some ⟨true, true, false⟩
  | .gat => some ⟨false, false, false⟩
  | .gatQ => some ⟨true, false, false⟩
  | .gatK => some ⟨false, true, false⟩
  | .gatKQ => some ⟨true, true, false⟩
  | .lag => some ⟨false, false, true⟩
  | .lagQ => some ⟨true, false, true⟩
  | .lagK => some ⟨false, true, true⟩
  | .lagKQ => some ⟨true, true, true⟩
  | _ => none

namespace Server

/-- An answer of nothing but a status and its text. -/
def bare (m : RequestMessage) (status : Status) (text : List UInt8) :
    BareAnswer where
  command := m.command.code
  status
  serial := m.serial
  text

/-- An object that goes out. -/
def found (m : RequestMessage) (kind : Kind) (o : Object) : Retrieval where
  command := m.command.code
  dataType := 0
  status := Status.ok
  serial := m.serial
  casUnique := o.casUnique
  flags := o.flags
  key := if kind.withKey then m.key else []
  data := o.payload

/-- What a request is answered with. Requests that no retrieval of the
tool sends have no answer here. -/
def answer (sv : Server) (m : RequestMessage) : List UInt8 :=
  if m.command = .noop then (bare m Status.ok []).packet
  else
    match kindOf m.command, sv.content m.key with
    | none, _ => []
    | some kind, none =>
        if kind.quiet then []
        else (bare m Status.notFound (sv.text Status.notFound)).packet
    | some kind, some o =>
        if kind.locks ∧ sv.lockedOut m.key then
          (bare m Status.locked (sv.text Status.locked)).packet
        else (found m kind o).packet

/-- The server as a peer: the requests it reads, answered in order. -/
def peer (sv : Server) : Peer := fun bytes =>
  (requestFormat.parse bytes).flatMap sv.answer

end Server

-- =========================================================== what is printed

/-- The arguments of a retrieval. -/
def Retrieve.argv (key expire : List UInt8) : Retrieve → List (List UInt8)
  | gat | gatk => [key, expire]
  | _ => [key]

/-- Nothing outside the process fails it: it gets its connection, its
requests are taken, what is sent to it arrives, and so does what it
writes. -/
structure Answers.Succeed (a : Answers) : Prop where
  server : a.server.isOk = true
  malloc : a.malloc.isSome = true
  request : .refused ∉ a.request
  noop : .refused ∉ a.noop
  recv : Serving a.recv
  stdout : ∀ ack ∈ a.stdout, ∃ n, ack = .took n

/-- A process writes `out` to standard output, unless something outside
fails it. -/
def Prints (run : Answers → Option Exit) (out : List UInt8) : Prop :=
  (∃ a exit, a.Succeed ∧ run a = some exit)
    ∧ ∀ a exit, a.Succeed → run a = some exit → exit.stdout = out

/-- A process prints one thing. -/
theorem Prints.unique {run : Answers → Option Exit} {out out' : List UInt8}
    (h : Prints run out) (h' : Prints run out') : out = out' := by
  obtain ⟨⟨a, exit, ha, hrun⟩, hout⟩ := h
  calc out = exit.stdout := (hout a exit ha hrun).symm
    _ = out' := h'.2 a exit ha hrun

end Yc

end Yrmcds
