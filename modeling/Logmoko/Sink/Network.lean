import Logmoko.Lib.Channel
import Logmoko.Sink.Datagrams

/-!
# network と受信側の program

socket handler が送った datagram を、network は失い、重ね、前後させる。誰かが勝手な datagram を
送り込むこともある。受信側の program は、届いたものを一つずつ復号して標準出力に書く。

最初の record より前に鍵が決まり、その鍵がずっと同じなら、次が成り立つ。

* `network_receivers` — 受信側が出すのは、届いた datagram の運ぶ行だけで、届いた順に並ぶ
* `network_reliable` — 一つの受信側への datagram が前後も重なりもせず、失われもしなければ、
  その受信側は、加わった後のすべての行を claim の順に出す
-/

namespace Logmoko

open Transition

/-- socket handler と、受信側の program を合わせた状態。 -/
structure NetworkState (ι σ : Type) where
  socket : SocketHandlerState ι σ
  receivers : σ → Receiver

/--
socket handler の動作、`i` 番目の送信の datagram が届くこと、`v` に別の所から datagram が届くこと。
-/
inductive NetworkAction (ι σ : Type) where
  | host (a : SocketHandlerAction ι σ)
  | deliver (i : Nat)
  | inject (v : σ) (datagram : List UInt8)

variable {ι σ : Type} [DecidableEq ι] [DecidableEq σ]

/-- `v` の program が datagram を一つ受け取る。 -/
def NetworkState.receiveAt (g : Gcm) (keys : σ → List UInt8) (s : NetworkState ι σ) (v : σ)
    (datagram : List UInt8) : NetworkState ι σ :=
  { s with
    receivers := Function.update s.receivers v (receive g (keys v) (s.receivers v) datagram) }

/-- 全体の一 step。`keys v` は、`v` の program が PSK から導いた鍵である。 -/
def networkStep (A : CursorArith) (g : Gcm) (strftime : Int → CStr) (keys : σ → List UInt8)
    (s : NetworkState ι σ) : NetworkAction ι σ → Option (NetworkState ι σ)
  | .host a => (socketHandlerStep A g strftime s.socket a).map fun socket => { s with socket }
  | .deliver i =>
    match s.socket.sender.hist.attempts[i]? with
    | some x => x.packet.map fun p => s.receiveAt g keys x.server p
    | none => none
  | .inject v datagram => some (s.receiveAt g keys v datagram)

/-- 動作列のうち、socket handler のもの。 -/
def hostActions (as : List (NetworkAction ι σ)) : List (SocketHandlerAction ι σ) :=
  as.filterMap fun
    | .host a => some a
    | .deliver _ | .inject _ _ => none

/-- 届いた送信の番号を、届いた順に並べたもの。 -/
def deliveries (as : List (NetworkAction ι σ)) : List Nat :=
  as.filterMap fun
    | .deliver i => some i
    | .host _ | .inject _ _ => none

/-- 動作列 `as` の間に `v` に届いた送信。 -/
def NetworkState.arrived (s : NetworkState ι σ) (v : σ) (as : List (NetworkAction ι σ)) :
    List (Attempt σ) :=
  (Channel.delivered s.socket.sender.hist.attempts (deliveries as)).filter (·.server = v)

/-- 番号の列 `is` のうち、`v` への送信のもの。 -/
def NetworkState.toReceiver (s : NetworkState ι σ) (v : σ) (is : List Nat) : List Nat :=
  is.filter fun i => s.socket.sender.hist.attempts[i]?.any fun x => x.server = v

/-- `v` への datagram は、みな暗号化に成功し、送った順に一度ずつ届く。 -/
structure NetworkState.Reliable (s : NetworkState ι σ) (v : σ) (is : List Nat) : Prop where
  encrypted : ∀ x ∈ s.socket.sender.hist.attempts, x.server = v → x.packet.isSome = true
  inOrder : (s.toReceiver v is).Pairwise (· < ·)
  lossless : ∀ i x, s.socket.sender.hist.attempts[i]? = some x → x.server = v →
    x.packet.isSome = true → i ∈ is

/-- 送り込まれる datagram は、宛先の鍵では開かない。 -/
def NetworkAction.Unforged (g : Gcm) (keys : σ → List UInt8) : NetworkAction ι σ → Prop
  | .inject v datagram => openPacket g (keys v) (datagram.take maxPacketSize) = none
  | _ => True

/-- 整形した record の行を、claim の順に並べたもの。 -/
def SocketHandlerState.lines (s : SocketHandlerState ι σ) : List (List UInt8) :=
  List.zipWith (fun d c => c.line d.fn d.timestamp) s.sender.hist.drained s.handler.mem.hist.claims

variable {g : Gcm} {strftime : Int → CStr} {keys : σ → List UInt8} {s t u : NetworkState ι σ}
  {as : List (NetworkAction ι σ)} {v : σ}

/-! ## 受信側の出力 -/

omit [DecidableEq ι] [DecidableEq σ] in
theorem hostActions_append (as bs : List (NetworkAction ι σ)) :
    hostActions (as ++ bs) = hostActions as ++ hostActions bs := List.filterMap_append

omit [DecidableEq ι] [DecidableEq σ] in
theorem deliveries_append (as bs : List (NetworkAction ι σ)) :
    deliveries (as ++ bs) = deliveries as ++ deliveries bs := List.filterMap_append

omit [DecidableEq ι] [DecidableEq σ] in
theorem hostActions_cons (a : NetworkAction ι σ) (as : List (NetworkAction ι σ)) :
    hostActions (a :: as) = hostActions [a] ++ hostActions as := hostActions_append [a] as

/-- 一 step は、socket handler から見れば、その動作か、何もしないことである。 -/
theorem networkStep_host {a : NetworkAction ι σ}
    (h : networkStep .unbounded g strftime keys s a = some t) :
    run (socketHandlerStep .unbounded g strftime) s.socket (hostActions [a]) = some t.socket := by
  cases a with
  | host a =>
    obtain ⟨socket, hsocket, rfl⟩ := Option.map_eq_some_iff.mp h
    exact run_singleton.trans hsocket
  | deliver i =>
    simp only [networkStep] at h
    split at h
    · obtain ⟨p, -, rfl⟩ := Option.map_eq_some_iff.mp h
      rfl
    · cases h
  | inject v datagram =>
    obtain rfl := Option.some.inj h
    rfl

/-- 全体の実行は、socket handler の実行である。 -/
theorem host_run (h : run (networkStep .unbounded g strftime keys) s as = some t) :
    run (socketHandlerStep .unbounded g strftime) s.socket (hostActions as) = some t.socket := by
  induction as generalizing s with
  | nil =>
    obtain rfl : s = t := Option.some.inj h
    rfl
  | cons a as ih =>
    obtain ⟨s', hs, h⟩ := run_cons_eq_some.mp h
    rw [hostActions_cons]
    exact run_append_eq_some.mpr ⟨s'.socket, networkStep_host hs, ih h⟩

omit [DecidableEq ι] in
theorem receiveAt_stdout (s : NetworkState ι σ) (v w : σ) (datagram : List UInt8) :
    ((s.receiveAt g keys w datagram).receivers v).stdout =
      (s.receivers v).stdout ++ if w = v then printedFor g (keys v) datagram else [] := by
  unfold NetworkState.receiveAt
  dsimp only
  by_cases hw : w = v
  · subst hw
    rw [Function.update_self, receive_stdout, if_pos rfl]
  · rw [Function.update_of_ne (Ne.symm hw), if_neg hw, List.append_nil]

/-- 受信側の出力は、届いた datagram ごとの出力をつないだものである。 -/
theorem receivers_stdout (h : run (networkStep .unbounded g strftime keys) s as = some t)
    (hunforged : ∀ a ∈ as, a.Unforged g keys) (v : σ) :
    (∀ x ∈ t.arrived v as, x.packet.isSome = true) ∧
      (t.receivers v).stdout = (s.receivers v).stdout ++
        (t.arrived v as).flatMap fun x => printedFor g (keys v) (x.packet.getD []) := by
  induction as generalizing s with
  | nil =>
    obtain rfl : s = t := Option.some.inj h
    simp [NetworkState.arrived, deliveries]
  | cons a as ih =>
    obtain ⟨s', hs, hrest⟩ := run_cons_eq_some.mp h
    obtain ⟨hsome, hih⟩ := ih hrest fun b hb => hunforged b (List.mem_cons_of_mem _ hb)
    cases a with
    | host a =>
      obtain ⟨socket, -, rfl⟩ := Option.map_eq_some_iff.mp hs
      exact ⟨hsome, hih⟩
    | deliver i =>
      simp only [networkStep] at hs
      split at hs
      · next x hx =>
        obtain ⟨p, hp, rfl⟩ := Option.map_eq_some_iff.mp hs
        have hx' : t.socket.sender.hist.attempts[i]? = some x :=
          getElem?_stays (grows_run (sender_run (host_run hrest))).attempts hx
        have hcons : t.arrived v (.deliver i :: as) =
            (x :: Channel.delivered t.socket.sender.hist.attempts (deliveries as)).filter
              (·.server = v) := by
          unfold NetworkState.arrived
          exact congrArg _ (Channel.delivered_cons hx')
        rw [hih, receiveAt_stdout, hcons, List.filter_cons]
        by_cases hv : x.server = v
        · rw [if_pos hv, if_pos (by simpa using hv), List.flatMap_cons, hp, List.append_assoc]
          refine ⟨?_, rfl⟩
          intro y hy
          rcases List.mem_cons.mp hy with rfl | hy
          · rw [hp]
            rfl
          · exact hsome y hy
        · rw [if_neg hv, if_neg (by simpa using hv), List.append_nil]
          exact ⟨hsome, rfl⟩
      · cases hs
    | inject w datagram =>
      have hforged : openPacket g (keys w) (datagram.take maxPacketSize) = none :=
        hunforged _ List.mem_cons_self
      have hnone : (if w = v then printedFor g (keys v) datagram else []) = [] := by
        split
        · next hw =>
          subst hw
          rw [printedFor, hforged]
        · rfl
      rw [← Option.some.inj hs, receiveAt_stdout, hnone, List.append_nil] at hih
      exact ⟨hsome, hih⟩

/-! ## 一つの datagram -/

theorem Drained.length_line_lt (d : Drained) : d.line.length < outBufSize := by
  have hpos : 0 < outBufSize := by decide
  have hlt : (formatLine d.fn d.timestamp (fun _ => 0) 0 outBufSize d.req).1 < outBufSize :=
    formatLine_fst_lt _ _ _ _ _ hpos
  have hlen : d.line.length =
      (formatLine d.fn d.timestamp (fun _ => 0) 0 outBufSize d.req).1.toNat := Buffer.length_read
  omega

/-- 同じ鍵の受信側は、暗号化された行をそのまま出す。 -/
theorem printedFor_packetOf {psk line : List UInt8} {iv : Iv} (h : line.length < outBufSize) :
    printedFor g psk (packetOf g psk iv.bytes line) = withNewline line := by
  have hlen := length_packetOf g psk line iv.length_eq
  have hmax : outBufSize + cryptoOverhead ≤ maxPacketSize := by decide
  have hopen : openPacket g psk (packetOf g psk iv.bytes line) = some line :=
    openPacket_eq_some_iff.mpr ⟨by omega, iv.bytes, iv.length_eq, rfl⟩
  rw [printedFor, List.take_of_length_le (by omega), hopen]

section Run

variable {name : CStr} {k : Nat} {fn : Formatter} {key psk : List UInt8} {out enc : Nat → UInt8}
  {r : σ → Receiver} {as₁ as₂ : List (NetworkAction ι σ)}

omit [DecidableEq σ] in
/-- 整形の結果は、claim の行の列である。 -/
theorem outputs_eq_lines {bs : List (SocketHandlerAction ι σ)} {w : SocketHandlerState ι σ}
    (hk : 1 ≤ k)
    (hrun : run (socketHandlerStep .unbounded g strftime)
      (socketHandlerInitial ι σ name k fn key out enc) bs = some w)
    (hfits : ∀ d ∈ w.sender.hist.drained, d.FitsOut) : w.sender.hist.outputs = w.lines := by
  have hsender := senderInv_run hrun
  rw [outputs_eq_map_line hsender.format.line hfits,
    map_line_eq ((socketHandlerInv_run hk hrun).delivered.drained hsender.slot.requests_eq)]
  rfl

/--
最初の record より前に `psk_enabled` が 1 になり、決める鍵が `psk` だけなら、どの送信も、
届いたときに受信側が出すのは、その番号の行である。
-/
theorem printedFor_attempt (hk : 1 ≤ k)
    (hu : run (networkStep .unbounded g strftime keys)
      ⟨socketHandlerInitial ι σ name k fn key out enc, r⟩ as₁ = some u)
    (htaken : u.socket.handler.taken = 0)
    (hrun : run (networkStep .unbounded g strftime keys) u (.host .enablePsk :: as₂) = some s)
    (hsets : ∀ a ∈ hostActions (as₁ ++ .host .enablePsk :: as₂), a.Sets psk)
    (hfits : ∀ d ∈ s.socket.sender.hist.drained, d.FitsOut) {x : Attempt σ}
    (hx : x ∈ s.socket.sender.hist.attempts) (hsome : x.packet.isSome = true) :
    ∃ line, s.socket.lines[x.index]? = some line ∧ line ≠ [] ∧
      printedFor g psk (x.packet.getD []) = withNewline line := by
  have hall := host_run (run_append_eq_some.mpr ⟨u, hu, hrun⟩)
  have hsender := senderInv_run hall
  obtain ⟨-, line, hline, hne, hsends⟩ := hsender.content x hx
  obtain ⟨c, d, -, -, hcarries, -, heq⟩ := exists_claim_of_output hk hall hfits hline
  -- 使われた鍵は `psk` である
  have hprotect := protectInv_run hk (host_run hu) (host_run hrun)
  obtain ⟨used, hused⟩ := Option.isSome_iff_exists.mp
    (hprotect.attempts x hx (by rw [htaken]; exact Nat.zero_le _))
  obtain rfl := (keyInv_run hsets hall).attempts x hx used hused
  obtain ⟨p, hp⟩ := Option.isSome_iff_exists.mp hsome
  unfold Attempt.Sends at hsends
  rw [hused] at hsends
  obtain ⟨iv, rfl⟩ := hsends p hp
  refine ⟨line, outputs_eq_lines hk hall hfits ▸ hline, hne, ?_⟩
  rw [hp, heq, ← d.line_eq hcarries]
  exact printedFor_packetOf d.length_line_lt

/-- 受信側の出力は、届いた送信の番号の行を、届いた順に並べたものである。 -/
theorem receivers_lines (hk : 1 ≤ k)
    (hu : run (networkStep .unbounded g strftime keys)
      ⟨socketHandlerInitial ι σ name k fn key out enc, r⟩ as₁ = some u)
    (htaken : u.socket.handler.taken = 0)
    (hrun : run (networkStep .unbounded g strftime keys) u (.host .enablePsk :: as₂) = some s)
    (hsets : ∀ a ∈ hostActions (as₁ ++ .host .enablePsk :: as₂), a.Sets psk)
    (hunforged : ∀ a ∈ as₁ ++ .host .enablePsk :: as₂, a.Unforged g keys)
    (hfits : ∀ d ∈ s.socket.sender.hist.drained, d.FitsOut) (hkey : keys v = psk) :
    (s.receivers v).stdout = (r v).stdout ++
      (s.arrived v (as₁ ++ .host .enablePsk :: as₂)).flatMap fun x =>
        withNewline (s.socket.lines.getD x.index []) := by
  obtain ⟨hsome, hstdout⟩ := receivers_stdout (run_append_eq_some.mpr ⟨u, hu, hrun⟩) hunforged v
  rw [hstdout, hkey]
  congr 1
  refine List.flatMap_congr ?_
  intro x hx
  have hmem := Channel.mem_of_mem_delivered (List.mem_of_mem_filter hx)
  obtain ⟨line, hline, -, hprinted⟩ :=
    printedFor_attempt hk hu htaken hrun hsets hfits hmem (hsome x hx)
  rw [hprinted, List.getD_eq_getElem?_getD, hline]
  rfl

/-! ## 主結果 -/

omit [DecidableEq ι] in
/-- 送った順に一度ずつ届くなら、届いたのは `v` への送信のすべてである。 -/
theorem NetworkState.Reliable.arrived_eq (h : s.Reliable v (deliveries as)) :
    s.arrived v as = s.socket.sender.hist.attempts.filter (·.server = v) := by
  refine Channel.filter_delivered h.inOrder ?_
  intro i x hx hv
  have hv : x.server = v := by simpa using hv
  exact h.lossless i x hx hv (h.encrypted x (List.mem_of_getElem? hx) hv)

/-- 空の行については、受信側は何も出さない。 -/
theorem flatMap_withNewline_filter (ls : List (List UInt8)) :
    (ls.filter (· ≠ [])).flatMap withNewline = ls.flatMap withNewline := by
  induction ls with
  | nil => rfl
  | cons l ls ih =>
    rw [List.filter_cons, List.flatMap_cons]
    split
    · rw [List.flatMap_cons, ih]
    · next hl =>
      obtain rfl : l = [] := by simpa using hl
      rw [ih]
      rfl

/--
番号の列 `is` が増えていき、`t` からの番号で行の空でないものをちょうど含むなら、その番号の行を
並べたものは、`t` からの行をすべて並べたものである。
-/
theorem flatMap_getD_eq_drop {ls : List (List UInt8)} {is : List Nat} {t : Nat}
    (hsorted : is.Pairwise (· < ·)) (hlt : ∀ i ∈ is, t ≤ i ∧ i < ls.length)
    (hmem : ∀ i line, t ≤ i → ls[i]? = some line → line ≠ [] → i ∈ is) :
    is.flatMap (fun i => withNewline (ls.getD i [])) = (ls.drop t).flatMap withNewline := by
  have hshift : (is.map (· - t)).Pairwise (· < ·) := by
    refine List.pairwise_map.mpr (hsorted.imp_of_mem ?_)
    intro i j hi hj hij
    have := (hlt i hi).1
    have := (hlt j hj).1
    omega
  have hpicked : Channel.delivered (ls.drop t) (is.map (· - t)) = is.map fun i => ls.getD i [] := by
    unfold Channel.delivered
    rw [List.filterMap_map, ← List.filterMap_eq_map]
    refine List.filterMap_congr ?_
    intro i hi
    obtain ⟨hle, hi⟩ := hlt i hi
    simp [Nat.add_sub_cancel' hle, hi]
  have hfilter : (Channel.delivered (ls.drop t) (is.map (· - t))).filter (· ≠ [])
      = (ls.drop t).filter (· ≠ []) := by
    refine Channel.filter_delivered (hshift.filter _) ?_
    intro i line hline hne
    rw [List.getElem?_drop] at hline
    exact List.mem_map.mpr ⟨t + i, hmem _ line (Nat.le_add_right t i) hline (by simpa using hne),
      Nat.add_sub_cancel_left t i⟩
  rw [← flatMap_withNewline_filter (ls.drop t), ← hfilter, hpicked, flatMap_withNewline_filter,
    List.flatMap_map]

omit [DecidableEq σ] in
/-- 一つの listener への送信は、番号が増えていく。 -/
theorem pairwise_index {xs : List (Attempt σ)} {j : Nat} (h : xs.Pairwise Attempt.Before)
    (hj : ∀ x ∈ xs, x.listener = j) : (xs.map Attempt.index).Pairwise (· < ·) := by
  refine List.pairwise_map.mpr (h.imp_of_mem ?_)
  intro x y hx hy hxy
  have := hj x hx
  have := hj y hy
  unfold Attempt.Before at hxy
  omega

omit [DecidableEq σ] in
/-- 休んでいる consumer は、どの claim の行も持つ。 -/
theorem SocketRests.length_lines {bs : List (SocketHandlerAction ι σ)}
    {y : SocketHandlerState ι σ} (hk : 1 ≤ k)
    (hrun : run (socketHandlerStep .unbounded g strftime)
      (socketHandlerInitial ι σ name k fn key out enc) bs = some y)
    (hrests : SocketRests g strftime (socketHandlerInitial ι σ name k fn key out enc) bs y) :
    y.lines.length = y.handler.mem.hist.claims.length := by
  unfold SocketHandlerState.lines
  rw [List.length_zipWith, (hrests.complete hk hrun).2, Nat.min_self]

/-- 休んでいる consumer が `v` に送った行は、加わった後のすべての行である。 -/
theorem attempts_lines {bs bs₁ bs₂ : List (SocketHandlerAction ι σ)}
    {w y : SocketHandlerState ι σ} (hk : 1 ≤ k)
    (hrun : run (socketHandlerStep .unbounded g strftime)
      (socketHandlerInitial ι σ name k fn key out enc) bs = some y)
    (hfits : ∀ d ∈ y.sender.hist.drained, d.FitsOut)
    (hattach : bs = bs₁ ++ .attachLogListener v :: bs₂)
    (hw : run (socketHandlerStep .unbounded g strftime)
      (socketHandlerInitial ι σ name k fn key out enc) bs₁ = some w)
    (honce : ∀ j, y.sender.servers[j]? = some v → j = w.sender.servers.length)
    (hrests : SocketRests g strftime (socketHandlerInitial ι σ name k fn key out enc) bs y) :
    (y.sender.hist.attempts.filter (·.server = v)).flatMap
        (fun x => withNewline (y.lines.getD x.index []))
      = (y.lines.drop w.sender.nextIndex).flatMap withNewline := by
  have hsender := senderInv_run hrun
  obtain ⟨hpc, -⟩ := hrests.complete hk hrun
  have hlines := outputs_eq_lines hk hrun hfits
  have hserver : ∀ x ∈ y.sender.hist.attempts.filter (·.server = v),
      x ∈ y.sender.hist.attempts ∧ x.listener = w.sender.servers.length := by
    intro x hx
    obtain ⟨hmem, hv⟩ := List.mem_filter.mp hx
    have hv : x.server = v := by simpa using hv
    exact ⟨hmem, honce _ (hv ▸ (hsender.content x hmem).1)⟩
  have hrest := hrun
  rw [hattach] at hrest
  obtain ⟨w', hw', hrest⟩ := run_append_eq_some.mp hrest
  obtain rfl := Option.some.inj (hw.symm.trans hw')
  have hsince := since_attached hw hrest
  have hv := server_attached hrest
  rw [← List.flatMap_map Attempt.index fun i => withNewline (y.lines.getD i [])]
  refine flatMap_getD_eq_drop
    (pairwise_index (hsender.place.sorted.filter _) fun x hx => (hserver x hx).2) ?_ ?_
  · intro i hi
    obtain ⟨x, hx, rfl⟩ := List.mem_map.mp hi
    obtain ⟨hx, hlistener⟩ := hserver x hx
    refine ⟨hsender.late.attempts x hx _ (hlistener ▸ hsince), ?_⟩
    obtain ⟨-, line, hline, -⟩ := hsender.content x hx
    rw [hlines] at hline
    exact (List.getElem?_eq_some_iff.mp hline).1
  · intro i line hi hline hne
    rw [← hlines] at hline
    have hlt := (List.getElem?_eq_some_iff.mp hline).1
    have hpast : i < y.sender.nextIndex := by
      rw [nextIndex_of_not_inSlot (by rw [hpc]; rfl),
        ← hsender.slot.length_outputs (by rw [hpc]; rfl)]
      exact hlt
    obtain ⟨x, hx, rfl, hlistener⟩ :=
      hsender.complete i _ _ _ (Or.inl hpast) hsince hi hline hne
    refine List.mem_map.mpr ⟨x, List.mem_filter.mpr ⟨hx, ?_⟩, rfl⟩
    have hx' := (hsender.content x hx).1
    rw [hlistener, hv] at hx'
    simpa using (Option.some.inj hx').symm

/--
**失われない network では、すべての行が受信側に出る。**

`network_receivers` の仮定の下で、`v` が状態 `w` で一度だけ listener に加わり、`v` への datagram が
みな暗号化に成功し、送った順に一度ずつすべて届くとする。ほかの受信側への datagram は、どう扱われても
よい。consumer が休んでいれば、受信側の出力は、加わったときに
まだ送り終えていなかった record からの、すべての claim の行を順に並べたものである。
-/
theorem network_reliable (hk : 1 ≤ k)
    (hu : run (networkStep .unbounded g strftime keys)
      ⟨socketHandlerInitial ι σ name k fn key out enc, r⟩ as₁ = some u)
    (htaken : u.socket.handler.taken = 0)
    (hrun : run (networkStep .unbounded g strftime keys) u (.host .enablePsk :: as₂) = some s)
    (hsets : ∀ a ∈ hostActions (as₁ ++ .host .enablePsk :: as₂), a.Sets psk)
    (hunforged : ∀ a ∈ as₁ ++ .host .enablePsk :: as₂, a.Unforged g keys)
    (hfits : ∀ d ∈ s.socket.sender.hist.drained, d.FitsOut) (hkey : keys v = psk)
    {bs₁ bs₂ : List (SocketHandlerAction ι σ)} {w : SocketHandlerState ι σ}
    (hattach : hostActions (as₁ ++ .host .enablePsk :: as₂) = bs₁ ++ .attachLogListener v :: bs₂)
    (hw : run (socketHandlerStep .unbounded g strftime)
      (socketHandlerInitial ι σ name k fn key out enc) bs₁ = some w)
    (honce : ∀ j, s.socket.sender.servers[j]? = some v → j = w.sender.servers.length)
    (hreliable : s.Reliable v (deliveries (as₁ ++ .host .enablePsk :: as₂)))
    (hrests : SocketRests g strftime (socketHandlerInitial ι σ name k fn key out enc)
      (hostActions (as₁ ++ .host .enablePsk :: as₂)) s.socket) :
    s.socket.lines.length = s.socket.handler.mem.hist.claims.length ∧
    (s.receivers v).stdout =
      (r v).stdout ++ (s.socket.lines.drop w.sender.nextIndex).flatMap withNewline := by
  have hall := host_run (run_append_eq_some.mpr ⟨u, hu, hrun⟩)
  refine ⟨hrests.length_lines hk hall, ?_⟩
  rw [receivers_lines hk hu htaken hrun hsets hunforged hfits hkey, hreliable.arrived_eq,
    attempts_lines hk hall hfits hattach hw honce hrests]

end Run

/-! ## 一つの datagram が届く実行 -/

/-- 受信側の program は、まだ何も出していない。 -/
abbrev smallNetwork : NetworkState Unit Nat :=
  ⟨smallSocketHandler, fun _ => ⟨fun _ => 0, fun _ => 0, []⟩⟩

/-- listener を加えて、鍵を書き始める。 -/
def keyedPrefix : List (NetworkAction Unit Nat) :=
  [.host (.attachLogListener 7), .host (.setSocketPsk secretKey)]

/-- record を一つ渡し、consumer がそれを送って眠り、datagram が届く。 -/
def deliveredRest : List (NetworkAction Unit Nat) :=
  .host (.logImpl () (sampleRecord 2 65)) :: (List.replicate 15 (.host (.producer () false)) ++
    List.replicate 15 (.host okSend) ++ [.deliver 0])

/-- 実行の後の consumer は休んでいて、listener と送信が一つずつある。 -/
theorem deliveredRest_state :
    ∃ u s, run (networkStep .unbounded secretGcm (fun _ => .empty) fun _ => secretKey)
        smallNetwork keyedPrefix = some u ∧ u.socket.handler.taken = 0 ∧
      run (networkStep .unbounded secretGcm (fun _ => .empty) fun _ => secretKey) u
        (.host .enablePsk :: deliveredRest) = some s ∧
      (∀ p, s.socket.handler.producers p = .idle) ∧ s.socket.handler.thread.isParked = true ∧
      s.socket.handler.mem.hist.claims.length = 1 ∧ s.socket.sender.servers = [7] ∧
      s.socket.sender.hist.attempts.map (fun x => x.packet.isSome) = [true] := by
  have hstate : ((run (networkStep .unbounded secretGcm (fun _ => .empty) fun _ => secretKey)
      smallNetwork keyedPrefix).bind fun u =>
        (run (networkStep .unbounded secretGcm (fun _ => .empty) fun _ => secretKey) u
          (.host .enablePsk :: deliveredRest)).map fun s =>
            (decide (u.socket.handler.taken = 0), decide
              ((∀ p, s.socket.handler.producers p = .idle) ∧
                s.socket.handler.thread.isParked = true ∧
                s.socket.handler.mem.hist.claims.length = 1 ∧ s.socket.sender.servers = [7] ∧
                s.socket.sender.hist.attempts.map (fun x => x.packet.isSome) = [true])))
      = some (true, true) := by
    decide +kernel
  obtain ⟨u, hu, hs⟩ := Option.bind_eq_some_iff.mp hstate
  obtain ⟨s, hs, hp⟩ := Option.map_eq_some_iff.mp hs
  simp only [Prod.mk.injEq, decide_eq_true_eq] at hp
  exact ⟨u, s, hu, hp.1, hs, hp.2⟩

theorem sets_deliveredRest :
    ∀ a ∈ hostActions (keyedPrefix ++ .host .enablePsk :: deliveredRest), a.Sets secretKey := by
  simp [hostActions, keyedPrefix, deliveredRest, okSend, SocketHandlerAction.Sets]

theorem unforged_deliveredRest : ∀ a ∈ keyedPrefix ++ .host .enablePsk :: deliveredRest,
    a.Unforged secretGcm fun _ => secretKey := by
  simp [keyedPrefix, deliveredRest, okSend, NetworkAction.Unforged]

theorem fitsOut_deliveredRest {s : NetworkState Unit Nat}
    (hrun : run (networkStep .unbounded secretGcm (fun _ => .empty) fun _ => secretKey)
      smallNetwork (keyedPrefix ++ .host .enablePsk :: deliveredRest) = some s) :
    ∀ d ∈ s.socket.sender.hist.drained, d.fn = .ofText (fun _ => [120, 10]) ∧ d.FitsOut := by
  intro d hd
  have hfn := drained_fn_eq (by
    simp [hostActions, keyedPrefix, deliveredRest, okSend, SocketHandlerAction.KeepsFormat])
    (host_run hrun) d hd
  exact ⟨hfn, Drained.fitsOut_ofText hfn (by decide)⟩

/-- ただ一つの行は、書式関数の定める二文字である。 -/
theorem lines_deliveredRest {s : NetworkState Unit Nat}
    (hfits : ∀ d ∈ s.socket.sender.hist.drained, d.fn = .ofText (fun _ => [120, 10]) ∧ d.FitsOut)
    (h : s.socket.lines.length = 1) : s.socket.lines = [[120, 10]] := by
  refine List.eq_replicate_iff.mpr ⟨h, ?_⟩
  intro line hline
  obtain ⟨i, hi⟩ := List.getElem?_of_mem hline
  obtain ⟨d, c, hd, -, rfl⟩ := List.getElem?_zipWith_eq_some.mp hi
  rw [(hfits d (List.mem_of_getElem? hd)).1, EnqueueCall.line_ofText (by decide)]

omit [DecidableEq ι] in
/-- ただ一つの送信が暗号化に成功して届けば、どの受信側にも届き終えている。 -/
theorem reliable_one {s : NetworkState ι σ}
    (h : s.socket.sender.hist.attempts.map (fun x => x.packet.isSome) = [true]) (v : σ) :
    s.Reliable v [0] := by
  obtain ⟨x, hx⟩ := List.length_eq_one_iff.mp ((List.length_map _).symm.trans (congrArg _ h))
  refine ⟨?_, (List.pairwise_singleton _ _).filter _, ?_⟩
  · intro y hy _
    have hy := List.mem_map_of_mem (f := fun x : Attempt σ => x.packet.isSome) hy
    rw [h] at hy
    exact List.mem_singleton.mp hy
  · intro i y hy _ _
    rw [hx] at hy
    have hlt := (List.getElem?_eq_some_iff.mp hy).1
    exact List.mem_singleton.mpr (Nat.lt_one_iff.mp hlt)

theorem network_reliable_deliveredRest :
    ∃ s, run (networkStep .unbounded secretGcm (fun _ => .empty) fun _ => secretKey) smallNetwork
        (keyedPrefix ++ .host .enablePsk :: deliveredRest) = some s ∧
      (s.receivers 7).stdout = [120, 10] := by
  obtain ⟨u, s, hu, htaken, hrun, hidle, ht, hclaims, hservers, hattempts⟩ := deliveredRest_state
  have hall := run_append_eq_some.mpr ⟨u, hu, hrun⟩
  have hfits := fitsOut_deliveredRest hall
  have honce : ∀ j, s.socket.sender.servers[j]? = some 7 → j = 0 := by
    intro j hj
    rw [hservers] at hj
    have := (List.getElem?_eq_some_iff.mp hj).1
    exact Nat.lt_one_iff.mp this
  have hattach : hostActions (keyedPrefix ++ .host .enablePsk :: deliveredRest) =
      [] ++ .attachLogListener 7 ::
        (hostActions (keyedPrefix ++ .host .enablePsk :: deliveredRest)).tail := rfl
  have hstart : run (socketHandlerStep .unbounded secretGcm fun _ => .empty) smallSocketHandler []
      = some smallSocketHandler := rfl
  obtain ⟨hlength, hstdout⟩ := network_reliable (by decide) hu htaken hrun sets_deliveredRest
    unforged_deliveredRest (fun d hd => (hfits d hd).2) rfl hattach hstart honce
    (reliable_one hattempts 7) (Or.inl ⟨hidle, ThreadPc.isParked_iff.mp ht⟩)
  refine ⟨s, hall, ?_⟩
  rw [hstdout, lines_deliveredRest hfits (hlength.trans hclaims)]
  rfl

end Logmoko
