/-
The receive loop of a retrieval, without its buffer.

`Awaits` says what the loop is to end with in front of a stream: it skips
the responses with other serials, and gives up at the first refusal or at
a violation of the format. A loop whose kernel and allocator fail nobody
ends with that and nothing else (`recvLoop_sound`), and there is a script
with which it does end (`recvLoop_finishes`).

Both are inductions on `Awaits`; a round of the loop is one call of
`yrmcds_recv` in front of the next packet (`recv_frame`, `recv_bad`).
-/
import Yrmcds.Model.Yc
import Yrmcds.Proofs.Recv.Progress

namespace Yrmcds

open Framing

namespace Yc

variable {lz : Lz4} {compression : Nat} {serial : UInt32}

/-- What the loop ends with in front of a stream. -/
inductive Awaits (lz : Lz4) (compression : Nat) (serial : UInt32) :
    List UInt8 → Except Nat Response → Prop
  | bad {s : List UInt8} : refCut lz compression s = .bad →
      Awaits lz compression serial s (.error 2)
  | refused {s : List UInt8} {n : Nat} {r : Response} :
      refCut lz compression s = .frame n r → r.status ≠ Status.ok →
      Awaits lz compression serial s (.error 3)
  | own {s : List UInt8} {n : Nat} {r : Response} :
      refCut lz compression s = .frame n r → r.status = Status.ok →
      r.serial = serial → Awaits lz compression serial s (.ok r)
  | other {s : List UInt8} {n : Nat} {r : Response}
      {out : Except Nat Response} :
      refCut lz compression s = .frame n r → r.status = Status.ok →
      r.serial ≠ serial → Awaits lz compression serial (s.drop n) out →
      Awaits lz compression serial s out

/-- A connection that receives. -/
structure Live (compression : Nat) (c : Conn) : Prop where
  ok : c.BufOk
  valid : c.invalid = false
  compressSize : c.compressSize = compression

-- ============================================================== one round

section Round

variable {c c' : Conn} {k k' : Kernel} {res : RecvResult}

/-- A call that nobody fails reaches a verdict. -/
theorem recv_verdict (hlz : lz.Lawful) (hc : Live compression c)
    (hk : Serving k.script) (h : yrmcdsRecv lz c k = some (res, c', k')) :
    res = .err .protocolError ∨ ∃ r, res = .ok r := by
  have hspec := yrmcdsRecv_spec hlz h hc.ok
  cases res with
  | ok r => exact .inr ⟨r, rfl⟩
  | err e =>
      refine .inl (congrArg _ ?_)
      by_contra hne
      obtain ⟨used, a, hs, ha⟩ := hspec.failure e rfl hne
      have hmem : a ∈ k.script := by
        rw [hs]
        exact List.mem_append_right _ (List.mem_cons_self ..)
      exact (hk a hmem).not_fails e ha

/-- In front of a packet a call returns it and moves on. -/
theorem recv_frame (hlz : lz.Lawful) (hc : Live compression c)
    (hk : Serving k.script) {n : Nat} {r : Response}
    (hcut : refCut lz compression (c.pending ++ k.stream) = .frame n r)
    (h : yrmcdsRecv lz c k = some (res, c', k')) :
    res = .ok r ∧ Live compression c' ∧ Serving k'.script
      ∧ c'.pending ++ k'.stream = (c.pending ++ k.stream).drop n := by
  have hspec := yrmcdsRecv_spec hlz h hc.ok
  have hunread := (hspec.call.unread (rx_sound k hc.valid)).2
  rw [← hc.compressSize] at hcut
  obtain rfl | ⟨r', rfl⟩ := recv_verdict hlz hc hk h
  · cases hunread.1.symm.trans hcut
  · obtain ⟨hdead, n', hcut', hrest⟩ := hunread
    injection hcut'.symm.trans hcut with hn hr
    subst hn hr
    obtain ⟨used, hs⟩ := hspec.script
    refine ⟨rfl, ⟨hspec.ok, hdead, hspec.compressSize.trans hc.compressSize⟩,
      fun a ha => hk a ?_, hrest⟩
    rw [hs]
    exact List.mem_append_right _ ha

/-- In front of a violation a call reports it. -/
theorem recv_bad (hlz : lz.Lawful) (hc : Live compression c)
    (hk : Serving k.script)
    (hcut : refCut lz compression (c.pending ++ k.stream) = .bad)
    (h : yrmcdsRecv lz c k = some (res, c', k')) :
    res = .err .protocolError := by
  have hspec := yrmcdsRecv_spec hlz h hc.ok
  have hunread := (hspec.call.unread (rx_sound k hc.valid)).2
  rw [← hc.compressSize] at hcut
  obtain hres | ⟨r, rfl⟩ := recv_verdict hlz hc hk h
  · exact hres
  · obtain ⟨-, n, hcut', -⟩ := hunread
    cases hcut'.symm.trans hcut

/-- In front of a packet there is a call that nobody fails, with any
answers left for later. -/
theorem recv_frame_finishes (hlz : lz.Lawful) (hc : Live compression c)
    {stream : List UInt8} {n : Nat} {r : Response}
    (hcut : refCut lz compression (c.pending ++ stream) = .frame n r) :
    ∃ script c' stream', Serving script ∧ Live compression c'
      ∧ c'.pending ++ stream' = (c.pending ++ stream).drop n
      ∧ ∀ tail, yrmcdsRecv lz c ⟨stream, script ++ tail⟩
        = some (.ok r, c', ⟨stream', tail⟩) := by
  have hmore : refCut lz c.compressSize (c.pending ++ stream) ≠ .more := by
    rw [hc.compressSize, hcut]
    intro hm
    cases hm
  obtain ⟨script, res, c', stream', hk, -, hcall⟩ :=
    yrmcdsRecv_finishes hc.ok hc.valid hmore
  have hk₀ : Serving (script ++ []) := hk.append serving_nil
  obtain ⟨rfl, hc', -, hrest⟩ := recv_frame hlz hc hk₀ hcut (hcall [])
  exact ⟨script, c', stream', hk, hc', hrest, hcall⟩

/-- In front of a violation there is a call that nobody fails. -/
theorem recv_bad_finishes (hlz : lz.Lawful) (hc : Live compression c)
    {stream : List UInt8}
    (hcut : refCut lz compression (c.pending ++ stream) = .bad) :
    ∃ script c' k', Serving script ∧ yrmcdsRecv lz c ⟨stream, script⟩
      = some (.err .protocolError, c', k') := by
  have hmore : refCut lz c.compressSize (c.pending ++ stream) ≠ .more := by
    rw [hc.compressSize, hcut]
    intro hm
    cases hm
  obtain ⟨script, res, c', stream', hk, -, hcall⟩ :=
    yrmcdsRecv_finishes hc.ok hc.valid hmore
  have hk₀ : Serving (script ++ []) := hk.append serving_nil
  obtain rfl := recv_bad hlz hc hk₀ hcut (hcall [])
  exact ⟨script ++ [], c', _, hk₀, hcall []⟩

end Round

-- =============================================================== the loop

section Loop

variable {c c' : Conn} {k k' : Kernel} {fuel : Nat}
  {s : List UInt8} {out : Except Nat Response}

/-- A loop that ends has made a call. -/
theorem recvLoop_called (h : recvLoop lz serial fuel c k = some out) :
    ∃ fuel' res c' k', fuel = fuel' + 1
      ∧ yrmcdsRecv lz c k = some (res, c', k') := by
  cases fuel with
  | zero => cases h
  | succ fuel =>
      rw [recvLoop] at h
      split at h
      next => cases h
      next e c' k' hcall => exact ⟨fuel, _, _, _, rfl, hcall⟩
      next r c' k' hcall => exact ⟨fuel, _, _, _, rfl, hcall⟩

theorem recvLoop_err {e : Error}
    (h : yrmcdsRecv lz c k = some (.err e, c', k')) :
    recvLoop lz serial (fuel + 1) c k = some (.error 2) := by
  rw [recvLoop, h]

theorem recvLoop_ok {r : Response}
    (h : yrmcdsRecv lz c k = some (.ok r, c', k')) :
    recvLoop lz serial (fuel + 1) c k
      = if r.status ≠ Status.ok then some (.error 3)
        else if r.serial = serial then some (.ok r)
        else recvLoop lz serial fuel c' k' := by
  rw [recvLoop, h]

/-- A loop that nobody fails and that ends, ends with what it is to end
with. -/
theorem recvLoop_sound (hlz : lz.Lawful)
    (hw : Awaits lz compression serial s out) {out' : Except Nat Response}
    (hc : Live compression c) (hk : Serving k.script)
    (hs : c.pending ++ k.stream = s)
    (h : recvLoop lz serial fuel c k = some out') : out' = out := by
  induction hw generalizing fuel c k with
  | bad hcut =>
      subst hs
      obtain ⟨fuel, res, c', k', rfl, hcall⟩ := recvLoop_called h
      obtain rfl := recv_bad hlz hc hk hcut hcall
      rw [recvLoop_err hcall] at h
      cases h
      rfl
  | refused hcut hstatus =>
      subst hs
      obtain ⟨fuel, res, c', k', rfl, hcall⟩ := recvLoop_called h
      obtain ⟨rfl, -⟩ := recv_frame hlz hc hk hcut hcall
      rw [recvLoop_ok hcall, if_pos hstatus] at h
      cases h
      rfl
  | own hcut hstatus hserial =>
      subst hs
      obtain ⟨fuel, res, c', k', rfl, hcall⟩ := recvLoop_called h
      obtain ⟨rfl, -⟩ := recv_frame hlz hc hk hcut hcall
      rw [recvLoop_ok hcall, if_neg (not_not_intro hstatus),
        if_pos hserial] at h
      cases h
      rfl
  | other hcut hstatus hserial _ ih =>
      subst hs
      obtain ⟨fuel, res, c', k', rfl, hcall⟩ := recvLoop_called h
      obtain ⟨rfl, hc', hk', hrest⟩ := recv_frame hlz hc hk hcut hcall
      rw [recvLoop_ok hcall, if_neg (not_not_intro hstatus),
        if_neg hserial] at h
      exact ih hc' hk' hrest h

/-- There is a script that fails nobody and with which the loop ends, given
a round for each byte of the stream. -/
theorem recvLoop_finishes (hlz : lz.Lawful)
    (hw : Awaits lz compression serial s out) {stream : List UInt8}
    (hc : Live compression c) (hs : c.pending ++ stream = s)
    (hfuel : s.length < fuel) :
    ∃ script, Serving script
      ∧ recvLoop lz serial fuel c ⟨stream, script⟩ = some out := by
  induction hw generalizing fuel c stream with
  | bad hcut =>
      subst hs
      obtain ⟨fuel, rfl⟩ : ∃ f, fuel = f + 1 := ⟨fuel - 1, by omega⟩
      obtain ⟨script, c', k', hk, hcall⟩ := recv_bad_finishes hlz hc hcut
      exact ⟨script, hk, recvLoop_err hcall⟩
  | refused hcut hstatus =>
      subst hs
      obtain ⟨fuel, rfl⟩ : ∃ f, fuel = f + 1 := ⟨fuel - 1, by omega⟩
      obtain ⟨script, c', stream', hk, -, -, hcall⟩ :=
        recv_frame_finishes hlz hc hcut
      refine ⟨script ++ [], hk.append serving_nil, ?_⟩
      rw [recvLoop_ok (hcall []), if_pos hstatus]
  | own hcut hstatus hserial =>
      subst hs
      obtain ⟨fuel, rfl⟩ : ∃ f, fuel = f + 1 := ⟨fuel - 1, by omega⟩
      obtain ⟨script, c', stream', hk, -, -, hcall⟩ :=
        recv_frame_finishes hlz hc hcut
      refine ⟨script ++ [], hk.append serving_nil, ?_⟩
      rw [recvLoop_ok (hcall []), if_neg (not_not_intro hstatus),
        if_pos hserial]
  | @other s n r out hcut hstatus hserial _ ih =>
      subst hs
      obtain ⟨fuel, rfl⟩ : ∃ f, fuel = f + 1 := ⟨fuel - 1, by omega⟩
      obtain ⟨script, c', stream', hk, hc', hrest, hcall⟩ :=
        recv_frame_finishes hlz hc hcut
      -- the packet skipped took bytes, so a round less is enough
      have hsize := refCut_frame hcut
      have hshort : ((c.pending ++ stream).drop n).length < fuel := by
        rw [List.length_drop]
        omega
      obtain ⟨script', hk', hloop⟩ := ih hc' hrest hshort
      refine ⟨script ++ script', hk.append hk', ?_⟩
      rw [recvLoop_ok (hcall script'), if_neg (not_not_intro hstatus),
        if_neg hserial]
      exact hloop

end Loop

end Yc

end Yrmcds
