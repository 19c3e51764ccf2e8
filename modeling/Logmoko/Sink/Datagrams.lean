import Logmoko.Sink.Socket
import Logmoko.Transport.Switch

/-!
# どの listener に何が届けられるか

socket handler の実行全体についての結果をまとめる。producer、consumer、停止、listener の追加、
鍵と書式の変更がどう混ざっても、次が成り立つ（`socket_handler_attempts`）。

* 一つの listener への送信は claim の順で、一つの record につき高々一度である
* 送られる行は、claim された record を書式関数に渡した行である
* consumer が休んでいれば、listener が加わった時点でまだ送り終えていなかった record は、
  みなその listener に送られている

暗号化については `socket_handler_switch` にまとめる。平文から暗号への切り替えは一度だけ、record の
境目で起こり、決める鍵が一つなら、暗号にはその鍵だけが使われる。
-/

namespace Logmoko

open Transition

variable {ι σ : Type} [DecidableEq ι] {g : Gcm} {strftime : Int → CStr} {name : CStr} {k : Nat}
  {fn : Formatter} {key : List UInt8} {out enc : Nat → UInt8} {s u : SocketHandlerState ι σ}
  {as : List (SocketHandlerAction ι σ)}

/-! ## 実行全体 -/

theorem socketHandlerInv_run (hk : 1 ≤ k)
    (hrun : run (socketHandlerStep .unbounded g strftime)
      (socketHandlerInitial ι σ name k fn key out enc) as = some s) : SocketHandlerInv s := by
  refine Reachable.invariant (fun _ _ _ h hs => h.step hs) ?_ ⟨as, hrun⟩
  exact ⟨rfl, ringInv_initial hk, rfl, List.Forall₂.nil⟩

theorem senderInv_run
    (hrun : run (socketHandlerStep .unbounded g strftime)
      (socketHandlerInitial ι σ name k fn key out enc) as = some s) :
    SenderInv g strftime s.sender :=
  Reachable.invariant (fun _ _ _ h hs => h.step hs) senderInv_initial ⟨_, sender_run hrun⟩

omit [DecidableEq ι] in
/-- 送信の側が取り出した request は、整形したものと、まだのものである。 -/
theorem SlotInv.requests_eq {t : SenderState σ} (h : SlotInv t) :
    t.hist.peeked.map Prod.snd = t.hist.drained.map Drained.req ++ t.pc.pending.map Prod.snd := by
  rw [h.peeked, List.map_append, List.map_map]
  rfl

theorem getElem?_of_forall₂_left {α β : Type*} {R : α → β → Prop} {xs : List α} {ys : List β}
    (h : List.Forall₂ R xs ys) {i : Nat} {y : β} (hy : ys[i]? = some y) :
    ∃ x, xs[i]? = some x ∧ R x y := by
  induction h generalizing i with
  | nil => simp at hy
  | cons hr _ ih =>
    cases i with
    | zero =>
      obtain rfl := Option.some.inj hy
      exact ⟨_, rfl, hr⟩
    | succ i => exact ih hy

/-- 整形の結果は、その番号の claim の行である。 -/
theorem exists_claim_of_output (hk : 1 ≤ k)
    (hrun : run (socketHandlerStep .unbounded g strftime)
      (socketHandlerInitial ι σ name k fn key out enc) as = some s)
    (hfits : ∀ d ∈ s.sender.hist.drained, d.FitsOut) {i : Nat} {line : List UInt8}
    (hline : s.sender.hist.outputs[i]? = some line) :
    ∃ c d, s.handler.mem.hist.claims[i]? = some c ∧ s.sender.hist.drained[i]? = some d ∧
      Carries d.req c ∧ (d.now ≠ 0 → d.timestamp = strftime d.now) ∧
      line = c.line d.fn d.timestamp := by
  have hinv := socketHandlerInv_run hk hrun
  have hsender := senderInv_run hrun
  obtain ⟨d, hd, heq⟩ := getElem?_of_forall₂_left hsender.format.line hline
  have hmem := List.mem_of_getElem? hd
  have hlt := (List.getElem?_eq_some_iff.mp hd).1
  have hcarries := (hinv.delivered.drained hsender.slot.requests_eq).flip
  obtain ⟨c, hc, hcd⟩ := getElem?_of_forall₂_left hcarries hd
  rw [List.getElem?_take_of_lt hlt] at hc
  refine ⟨c, d, hc, hd, hcd, hsender.format.drained d hmem, ?_⟩
  rw [heq (hfits d hmem), d.line_eq hcd]

/-! ## 書式 -/

/-- 書式関数を変えない動作。 -/
def SocketHandlerAction.KeepsFormat : SocketHandlerAction ι σ → Prop
  | .setFormat _ => False
  | _ => True

/-- 送信の側の書式関数は変わらない。 -/
def SenderAction.KeepsFormat : SenderAction σ → Prop
  | .setFormat _ => False
  | _ => True

omit [DecidableEq ι] in
theorem keepsFormat_senderActs {A : CursorArith} {a : SocketHandlerAction ι σ}
    (s : SocketHandlerState ι σ) (h : a.KeepsFormat) : ∀ b ∈ s.senderActs A a, b.KeepsFormat := by
  intro b hb
  cases a with
  | setFormat => exact h.elim
  | thread now rand seen =>
    simp only [SocketHandlerState.senderActs] at hb
    repeat' split at hb
    all_goals simp_all [SenderAction.KeepsFormat]
  | logImpl | producer | spuriousWakeup | destroy => simp [SocketHandlerState.senderActs] at hb
  | attachLogListener | setSocketPsk | enablePsk =>
    simp only [SocketHandlerState.senderActs, List.mem_singleton] at hb
    rw [hb]
    trivial

/-- 書式関数を変えない実行では、どの行も始めの書式で整形されている。 -/
theorem drained_fn_eq (hkeep : ∀ a ∈ as, a.KeepsFormat)
    (hrun : run (socketHandlerStep .unbounded g strftime)
      (socketHandlerInitial ι σ name k fn key out enc) as = some s) :
    ∀ d ∈ s.sender.hist.drained, d.fn = fn := by
  have halong : Along (senderStep g strftime) (fun _ a => a.KeepsFormat) _ _ :=
    along_emitted (P := fun _ a => a.KeepsFormat) (f := SocketHandlerState.sender)
      (fun _ _ _ hs => (socketHandlerStep_eq_some.mp hs).2)
      (fun s a ha => along_of_forall_mem (keepsFormat_senderActs s ha))
      (along_of_forall_mem hkeep) hrun
  have hinv := run_invariant
    (I := fun t : SenderState σ => t.formatFn = fn ∧ ∀ d ∈ t.hist.drained, d.fn = fn) ?_
    ⟨rfl, by simp [socketHandlerInitial, senderInitial]⟩ halong (sender_run hrun)
  · exact hinv.2
  rintro t b t' ⟨hfn, hdrained⟩ hb hs
  cases senderStep_move hs with
  | setFormat => exact hb.elim
  | format =>
    refine ⟨hfn, ?_⟩
    intro d hd
    rcases List.mem_append.mp hd with hd | hd
    · exact hdrained d hd
    · obtain rfl := List.mem_singleton.mp hd
      exact hfn
  | _ => exact ⟨hfn, hdrained⟩

omit [DecidableEq ι] in
/-- 整形した record が claim を順に運んでいれば、どの行も収まる。 -/
theorem fitsOut_drained {ds : List Drained} {claims : List EnqueueCall}
    (h : List.Forall₂ (fun d c => Carries d.req c) ds claims)
    (hstyle : ∀ d ∈ ds, d.fn = fn ∧ Stamp strftime d.timestamp)
    (hfits : ∀ c ∈ claims, ∀ timestamp, Stamp strftime timestamp → ∃ line,
      fn.Yields (c.formatArgs timestamp) outBufSize line) : ∀ d ∈ ds, d.FitsOut := by
  intro d hd
  obtain ⟨i, hi⟩ := List.getElem?_of_mem hd
  obtain ⟨c, hc, hcarries⟩ := getElem?_of_forall₂_left h.flip hi
  unfold Drained.FitsOut
  rw [(hstyle d hd).1, hcarries.formatArgs_eq]
  exact hfits c (List.mem_of_getElem? hc) d.timestamp (hstyle d hd).2

omit [DecidableEq ι] in
/-- 書式を一度に展開する書式関数では、展開した長さだけが条件になる。 -/
theorem Drained.fitsOut_ofText {d : Drained} {text : FormatArgs → List UInt8}
    (hfn : d.fn = .ofText text)
    (h : (text (formatArgs d.timestamp d.req)).length < outBufSize) : d.FitsOut := by
  refine ⟨text (formatArgs d.timestamp d.req), ?_⟩
  rw [hfn]
  exact Formatter.ofText_yields h

/-- 展開した文字列が収まれば、それが行である。 -/
theorem EnqueueCall.line_ofText {c : EnqueueCall} {timestamp : CStr}
    {text : FormatArgs → List UInt8}
    (h : (text (c.formatArgs timestamp)).length < maxLineSize) :
    c.line (.ofText text) timestamp = text (c.formatArgs timestamp) :=
  c.line_of_yields (Formatter.ofText_yields h)

/-! ## listener の追加 -/

/-- 加わった listener の番号は、そのときの一覧の長さである。 -/
theorem since_attached {server : σ} {as₁ as₂ : List (SocketHandlerAction ι σ)}
    (hu : run (socketHandlerStep .unbounded g strftime)
      (socketHandlerInitial ι σ name k fn key out enc) as₁ = some u)
    (hrun : run (socketHandlerStep .unbounded g strftime) u (.attachLogListener server :: as₂)
      = some s) :
    s.sender.hist.since[u.sender.servers.length]? = some u.sender.nextIndex := by
  obtain ⟨v, hv, hrun⟩ := run_cons_eq_some.mp hrun
  obtain ⟨-, hf⟩ := socketHandlerStep_eq_some.mp hv
  refine getElem?_stays (grows_run (sender_run hrun)).since ?_
  rw [← (senderInv_run hu).slot.since, ← Option.some.inj hf]
  simp

/-- 加わった listener は、一覧のその番号に居続ける。 -/
theorem server_attached {server : σ} {as₂ : List (SocketHandlerAction ι σ)}
    (hrun : run (socketHandlerStep .unbounded g strftime) u (.attachLogListener server :: as₂)
      = some s) : s.sender.servers[u.sender.servers.length]? = some server := by
  obtain ⟨v, hv, hrun⟩ := run_cons_eq_some.mp hrun
  obtain ⟨-, hf⟩ := socketHandlerStep_eq_some.mp hv
  refine getElem?_stays (grows_run (sender_run hrun)).servers ?_
  rw [← Option.some.inj hf]
  simp

/-! ## 主結果 -/

/-- 実行 `as` の後で、socket handler の consumer が休んでいる。 -/
def SocketRests (g : Gcm) (strftime : Int → CStr) (s₀ : SocketHandlerState ι σ)
    (as : List (SocketHandlerAction ι σ)) (s : SocketHandlerState ι σ) : Prop :=
  HandlerRests s₀.handler
    (emitted (socketHandlerStep .unbounded g strftime) SocketHandlerState.handlerActs s₀ as)
    s.handler

/-- 休んでいる consumer は slot の間にいて、claim をすべて取り出している。 -/
theorem SocketRests.complete (hk : 1 ≤ k)
    (hrun : run (socketHandlerStep .unbounded g strftime)
      (socketHandlerInitial ι σ name k fn key out enc) as = some s)
    (hrests : SocketRests g strftime (socketHandlerInitial ι σ name k fn key out enc) as s) :
    s.sender.pc = .peek ∧ s.sender.hist.drained.length = s.handler.mem.hist.claims.length := by
  have hinv := socketHandlerInv_run hk hrun
  have hpc : s.sender.pc = .peek := by
    have hsynced := hinv.synced
    rcases hrests with ⟨-, ht⟩ | ⟨ht, -⟩ <;> rw [ht] at hsynced <;> exact hsynced
  refine ⟨hpc, hinv.delivered.length_drained ?_ (hrests.taken_eq hk (socket_handler_run hrun))⟩
  rw [(senderInv_run hrun).slot.requests_eq, hpc]
  rfl

/--
**どの listener にも、claim された行が claim の順に高々一度ずつ送られる。**

consumer が休んでいれば、途中の状態 `u` で加わった listener には、空の行のものを除いて、
ちょうど、そのときまだ送り終えていなかった番号の record が送られている。
-/
theorem socket_handler_attempts (hk : 1 ≤ k)
    (hrun : run (socketHandlerStep .unbounded g strftime)
      (socketHandlerInitial ι σ name k fn key out enc) as = some s)
    (hfits : ∀ d ∈ s.sender.hist.drained, d.FitsOut) :
    s.sender.hist.attempts.Pairwise Attempt.Before ∧
    (∀ x ∈ s.sender.hist.attempts, s.sender.servers[x.listener]? = some x.server ∧
      ∃ c d, s.handler.mem.hist.claims[x.index]? = some c ∧
        s.sender.hist.drained[x.index]? = some d ∧ Carries d.req c ∧
        (d.now ≠ 0 → d.timestamp = strftime d.now) ∧ x.Sends g (c.line d.fn d.timestamp)) ∧
    (SocketRests g strftime (socketHandlerInitial ι σ name k fn key out enc) as s →
      s.sender.hist.drained.length = s.handler.mem.hist.claims.length ∧
      ∀ as₁ server as₂ u, as = as₁ ++ .attachLogListener server :: as₂ →
        run (socketHandlerStep .unbounded g strftime)
          (socketHandlerInitial ι σ name k fn key out enc) as₁ = some u →
        ∀ i c d, s.handler.mem.hist.claims[i]? = some c → s.sender.hist.drained[i]? = some d →
          c.line d.fn d.timestamp ≠ [] →
          ((∃ x ∈ s.sender.hist.attempts, x.index = i ∧ x.listener = u.sender.servers.length) ↔
            u.sender.nextIndex ≤ i)) := by
  have hsender := senderInv_run hrun
  refine ⟨hsender.place.sorted, ?_, ?_⟩
  · intro x hx
    obtain ⟨hserver, line, hline, -, hsends⟩ := hsender.content x hx
    obtain ⟨c, d, hc, hd, hcarries, hclock, rfl⟩ := exists_claim_of_output hk hrun hfits hline
    exact ⟨hserver, c, d, hc, hd, hcarries, hclock, hsends⟩
  · intro hrests
    obtain ⟨hpc, hlen⟩ := hrests.complete hk hrun
    refine ⟨hlen, ?_⟩
    rintro as₁ server as₂ u rfl hu i c d hc hd hne
    obtain ⟨u', hu', hrest⟩ := run_append_eq_some.mp hrun
    obtain rfl := Option.some.inj (hu.symm.trans hu')
    have hsince := since_attached hu hrest
    constructor
    · rintro ⟨x, hx, rfl, hlistener⟩
      exact hsender.late.attempts x hx _ (hlistener ▸ hsince)
    · intro hi
      have hlt := (List.getElem?_eq_some_iff.mp hd).1
      obtain ⟨line, hline⟩ : ∃ line, s.sender.hist.outputs[i]? = some line := by
        refine ⟨_, List.getElem?_eq_getElem ?_⟩
        rw [hsender.slot.length]
        exact hlt
      obtain ⟨c', d', hc', hd', -, -, rfl⟩ := exists_claim_of_output hk hrun hfits hline
      obtain rfl := Option.some.inj (hc.symm.trans hc')
      obtain rfl := Option.some.inj (hd.symm.trans hd')
      -- 順番は、休んでいる consumer ではみな過ぎている
      refine hsender.complete i _ _ _ (Or.inl ?_) hsince hi hline hne
      rw [nextIndex_of_not_inSlot (by rw [hpc]; rfl),
        ← hsender.slot.length_outputs (by rw [hpc]; rfl), hsender.slot.length]
      exact hlt

/-- 一つの listener に暗号化して送る socket handler。 -/
def smallSocketHandler : SocketHandlerState Unit Nat :=
  socketHandlerInitial Unit Nat .empty 1 (.ofText fun _ => [120, 10]) [] (fun _ => 0) fun _ => 0

/-- 初期値を作れて、書き終えた鍵を読む consumer の step。 -/
def okSend : SocketHandlerAction Unit Nat :=
  .thread 1 (some ⟨[0, 1, 2, 3, 4, 5, 6, 7, 8, 9, 10, 11], rfl⟩) secretKey

/-- listener を加え、鍵を決めてから record を一つ渡し、consumer がそれを送って眠る。 -/
def oneDatagramRest : List (SocketHandlerAction Unit Nat) :=
  .setSocketPsk secretKey :: .enablePsk :: .logImpl () (sampleRecord 2 65) ::
    (List.replicate 15 (.producer () false) ++ List.replicate 15 okSend)

theorem socket_handler_attempts_oneDatagramRest :
    ∃ s, run (socketHandlerStep .unbounded secretGcm fun _ => .empty) smallSocketHandler
        (.attachLogListener 7 :: oneDatagramRest) = some s ∧
      s.sender.hist.drained.length = 1 ∧
      ∃ x ∈ s.sender.hist.attempts, x.index = 0 ∧ x.listener = 0 := by
  have hpc : (run (socketHandlerStep .unbounded secretGcm fun _ => .empty) smallSocketHandler
      (.attachLogListener 7 :: oneDatagramRest)).map (fun s =>
        (decide (∀ p, s.handler.producers p = .idle), s.handler.thread.isParked,
          s.handler.mem.hist.claims.length)) = some (true, true, 1) := by decide +kernel
  obtain ⟨s, hs, hp⟩ := Option.map_eq_some_iff.mp hpc
  simp only [Prod.mk.injEq, decide_eq_true_eq, ThreadPc.isParked_iff] at hp
  obtain ⟨hidle, ht, hclaims⟩ := hp
  have hfn := drained_fn_eq (by
    simp [oneDatagramRest, okSend, SocketHandlerAction.KeepsFormat]) hs
  have hfits : ∀ d ∈ s.sender.hist.drained, d.FitsOut := fun d hd =>
    Drained.fitsOut_ofText (hfn d hd) (by decide)
  obtain ⟨-, -, hrests⟩ := socket_handler_attempts (by decide) hs hfits
  obtain ⟨hlen, hall⟩ := hrests (Or.inl ⟨hidle, ht⟩)
  have hzero : 0 < s.sender.hist.drained.length := by omega
  obtain ⟨c, hc⟩ : ∃ c, s.handler.mem.hist.claims[0]? = some c :=
    ⟨_, List.getElem?_eq_getElem (by omega)⟩
  refine ⟨s, hs, hlen.trans hclaims, ?_⟩
  refine (hall [] 7 oneDatagramRest _ rfl rfl 0 c _ hc (List.getElem?_eq_getElem hzero) ?_).mpr
    (Nat.zero_le _)
  rw [hfn _ (List.getElem_mem hzero), EnqueueCall.line_ofText (by decide)]
  simp

/-! ## 暗号への切り替え -/

section Switch

/-- 決める鍵は `key` だけである。 -/
def SocketHandlerAction.Sets (key : List UInt8) : SocketHandlerAction ι σ → Prop
  | .setSocketPsk key' => key' = key
  | _ => True

omit [DecidableEq ι] in
theorem sets_senderActs {A : CursorArith} {a : SocketHandlerAction ι σ}
    (s : SocketHandlerState ι σ) (h : a.Sets key) : ∀ b ∈ s.senderActs A a, b.Sets key := by
  intro b hb
  cases a with
  | thread now rand seen =>
    simp only [SocketHandlerState.senderActs] at hb
    repeat' split at hb
    all_goals simp_all [SenderAction.Sets]
  | logImpl | producer | spuriousWakeup | destroy => simp [SocketHandlerState.senderActs] at hb
  | attachLogListener | enablePsk | setFormat =>
    simp only [SocketHandlerState.senderActs, List.mem_singleton] at hb
    rw [hb]
    trivial
  | setSocketPsk =>
    simp only [SocketHandlerState.senderActs, List.mem_singleton] at hb
    rw [hb]
    exact h

theorem switchInv_run
    (hrun : run (socketHandlerStep .unbounded g strftime)
      (socketHandlerInitial ι σ name k fn key out enc) as = some s) : SwitchInv s.sender := by
  have hinv := Reachable.invariant
    (I := fun t : SenderState σ => SenderInv g strftime t ∧ SwitchInv t) ?_ ?_
    ⟨_, sender_run hrun⟩
  · exact hinv.2
  · rintro t b t' ⟨hsender, hswitch⟩ hs
    exact ⟨hsender.step hs, hswitch.step hsender.slot hsender.place hs⟩
  · refine ⟨senderInv_initial, ?_, ?_, ?_⟩
    all_goals simp [socketHandlerInitial, senderInitial, SendPc.mode]

theorem keyInv_run {key' : List UInt8} (hsets : ∀ a ∈ as, a.Sets key')
    (hrun : run (socketHandlerStep .unbounded g strftime)
      (socketHandlerInitial ι σ name k fn key out enc) as = some s) : KeyInv key' s.sender := by
  have halong : Along (senderStep g strftime) (fun _ a => a.Sets key') _ _ :=
    along_emitted (P := fun _ a => a.Sets key') (f := SocketHandlerState.sender)
      (fun _ _ _ hs => (socketHandlerStep_eq_some.mp hs).2)
      (fun s a ha => along_of_forall_mem (sets_senderActs s ha))
      (along_of_forall_mem hsets) hrun
  have hinv := run_invariant
    (I := fun t : SenderState σ => (SenderInv g strftime t ∧ SwitchInv t) ∧ KeyInv key' t) ?_ ?_
    halong (sender_run hrun)
  · exact hinv.2
  · rintro t b t' ⟨⟨hsender, hswitch⟩, hkey⟩ hb hs
    exact ⟨⟨hsender.step hs, hswitch.step hsender.slot hsender.place hs⟩, hkey.step hswitch hb hs⟩
  · refine ⟨⟨senderInv_initial, ?_, ?_, ?_⟩, ?_, ?_, ?_⟩
    all_goals simp [socketHandlerInitial, senderInitial, SendPc.mode]

/-- `psk_enabled` が 1 になった後の実行では、その後に取り出した record は平文では送られない。 -/
theorem protectInv_run {as₁ as₂ : List (SocketHandlerAction ι σ)} (hk : 1 ≤ k)
    (hu : run (socketHandlerStep .unbounded g strftime)
      (socketHandlerInitial ι σ name k fn key out enc) as₁ = some u)
    (hrun : run (socketHandlerStep .unbounded g strftime) u (.enablePsk :: as₂) = some s) :
    ProtectInv u.handler.taken s.sender := by
  obtain ⟨v, hv, hrest⟩ := run_cons_eq_some.mp hrun
  obtain ⟨-, hf⟩ := socketHandlerStep_eq_some.mp hv
  have hsender := senderInv_run hu
  have htaken : u.sender.hist.peeked.length = u.handler.taken := by
    have hinv := socketHandlerInv_run hk hu
    have hlen := hinv.delivered.length_eq
    rwa [List.length_map, List.length_take, Nat.min_eq_left (taken_le hinv.ring)] at hlen
  have hstart : SenderInv g strftime v.sender ∧ ProtectInv u.handler.taken v.sender := by
    obtain ⟨handler', sender'⟩ := v
    have hstep : senderStep g strftime u.sender .enablePsk = some sender' :=
      run_singleton.symm.trans hf
    refine ⟨hsender.step hstep, ?_⟩
    rw [← htaken]
    cases senderStep_move hstep with
    | enablePsk => exact protectInv_enabled hsender.slot hsender.place
  have hinv := Reachable.invariant
    (I := fun t : SenderState σ => SenderInv g strftime t ∧ ProtectInv u.handler.taken t) ?_
    hstart ⟨_, sender_run hrest⟩
  · exact hinv.2
  · rintro t b t' ⟨hsender, hprotect⟩ hs
    exact ⟨hsender.step hs, hprotect.step hsender.slot hs⟩

/--
**平文から暗号への切り替え。**

暗号で送られた record より後の record は、どの listener にも暗号でしか送られず、一つの record が
平文と暗号の両方で送られることもない。`psk_enabled` が 1 になった時点でまだ取り出されていなかった
record は、平文では送られない。決める鍵が一つなら、書いている途中に読まれても、暗号に使われるのは
その鍵だけである。
-/
theorem socket_handler_switch (hk : 1 ≤ k)
    (hrun : run (socketHandlerStep .unbounded g strftime)
      (socketHandlerInitial ι σ name k fn key out enc) as = some s) :
    (∀ x ∈ s.sender.hist.attempts, ∀ y ∈ s.sender.hist.attempts, x.index ≤ y.index →
      x.key.isSome = true → y.key.isSome = true) ∧
    (∀ as₁ as₂ u, as = as₁ ++ .enablePsk :: as₂ →
      run (socketHandlerStep .unbounded g strftime)
        (socketHandlerInitial ι σ name k fn key out enc) as₁ = some u →
      ∀ x ∈ s.sender.hist.attempts, u.handler.taken ≤ x.index → x.key.isSome = true) ∧
    ∀ key', (∀ a ∈ as, a.Sets key') →
      ∀ x ∈ s.sender.hist.attempts, ∀ used, x.key = some used → used = key' := by
  refine ⟨(switchInv_run hrun).ordered, ?_, ?_⟩
  · rintro as₁ as₂ u rfl hu
    obtain ⟨u', hu', hrest⟩ := run_append_eq_some.mp hrun
    obtain rfl := Option.some.inj (hu.symm.trans hu')
    exact (protectInv_run hk hu hrest).attempts
  · intro key' hsets
    exact (keyInv_run hsets hrun).attempts

theorem socket_handler_switch_oneDatagramRest :
    ∃ s, run (socketHandlerStep .unbounded secretGcm fun _ => .empty) smallSocketHandler
        (.attachLogListener 7 :: oneDatagramRest) = some s ∧
      s.sender.hist.attempts.length = 1 ∧
      ∀ x ∈ s.sender.hist.attempts, x.key = some secretKey := by
  have hlen : (run (socketHandlerStep .unbounded secretGcm fun _ => .empty) smallSocketHandler
      (.attachLogListener 7 :: oneDatagramRest)).map (fun s => s.sender.hist.attempts.length)
        = some 1 := by decide +kernel
  obtain ⟨s, hs, hlen⟩ := Option.map_eq_some_iff.mp hlen
  obtain ⟨-, hprotect, hkeys⟩ := socket_handler_switch (by decide) hs
  refine ⟨s, hs, hlen, ?_⟩
  intro x hx
  have hsome := hprotect [.attachLogListener 7, .setSocketPsk secretKey] _ _ rfl rfl x hx
    (Nat.zero_le _)
  obtain ⟨used, hused⟩ := Option.isSome_iff_exists.mp hsome
  rw [hused, hkeys secretKey ?_ x hx used hused]
  simp [oneDatagramRest, okSend, SocketHandlerAction.Sets]

end Switch

end Logmoko
