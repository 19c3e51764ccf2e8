import Logmoko.Process.Outlet
import Logmoko.Sink.Network

/-!
# 呼び出しから受信側の program まで

設定を終えた process の一つの socket handler を、datagram を受け取る program まで含めた系
（`Sink/Network.lean`）と差し替える。鍵と listener が設定のままなら、どの record も、すべての
listener に暗号化して送られる。`v` への datagram が失われず、前後も重複もしなければ、
`lmk_log_*` の呼び出しの順は、`v` の program の出力にそのまま現れる（`process_network`）。
-/

namespace Logmoko

open Transition

variable {ι σ : Type} [DecidableEq ι] [DecidableEq σ] {g : Gcm} {strftime : Int → CStr}
  {keys : σ → List UInt8}

/-! ## 出口としての network -/

/-- consumer のほかの動作を、socket handler の動作として書く。 -/
def networkAct : HandlerAction ι → Option (NetworkAction ι σ)
  | .logImpl p record => some (.host (.logImpl p record))
  | .producer p casFails => some (.host (.producer p casFails))
  | .thread => none
  | .spuriousWakeup => some (.host .spuriousWakeup)
  | .destroy => some (.host .destroy)

/-- 一 step を、受け渡しの側から見たもの。 -/
def NetworkState.handlerActs (s : NetworkState ι σ) : NetworkAction ι σ → List (HandlerAction ι)
  | .host a => s.socket.handlerActs a
  | .deliver _ | .inject _ _ => []

omit [DecidableEq ι] [DecidableEq σ] in
theorem handlerActs_networkAct {b : HandlerAction ι} {a : NetworkAction ι σ}
    (h : networkAct b = some a) (s : NetworkState ι σ) : s.handlerActs a = [b] := by
  cases b with
  | thread => cases h
  | logImpl | producer | spuriousWakeup | destroy =>
    obtain rfl := Option.some.inj h
    rfl

omit [DecidableEq ι] [DecidableEq σ] in
theorem networkAct_eq_none {b : HandlerAction ι}
    (h : (networkAct b : Option (NetworkAction ι σ)) = none) : b = .thread := by
  cases b with
  | thread => rfl
  | logImpl | producer | spuriousWakeup | destroy => cases h

omit [DecidableEq σ] in
/-- 受け渡しの側が見るのは、socket handler の動作である。 -/
theorem emitted_hostAction (g : Gcm) (strftime : Int → CStr) (s : NetworkState ι σ)
    (a : NetworkAction ι σ) :
    emitted (socketHandlerStep .unbounded g strftime) SocketHandlerState.handlerActs s.socket
      (hostActions [a]) = s.handlerActs a := by
  cases a with
  | host a => exact emitted_singleton ..
  | deliver | inject => rfl

theorem networkStep_handler {s s' : NetworkState ι σ} {a : NetworkAction ι σ}
    (h : networkStep .unbounded g strftime keys s a = some s') :
    run (handlerStep .unbounded) s.socket.handler (s.handlerActs a) = some s'.socket.handler := by
  rw [← emitted_hostAction g strftime s a]
  exact socket_handler_run (networkStep_host h)

/-- socket handler と受信側の program の全体を、出口とみなす。 -/
def networkOutlet (g : Gcm) (strftime : Int → CStr) (keys : σ → List UInt8) :
    Outlet ι (NetworkState ι σ) (NetworkAction ι σ) where
  step := networkStep .unbounded g strftime keys
  handler s := s.socket.handler
  acts := NetworkState.handlerActs
  act := networkAct
  handler_step := networkStep_handler
  acts_act := handlerActs_networkAct
  act_eq_none := networkAct_eq_none

/-- 実行を受け渡しの側から見たものは、socket handler の実行から見たものと同じである。 -/
theorem emitted_hostActions {s t : NetworkState ι σ} {as : List (NetworkAction ι σ)}
    (h : run (networkStep .unbounded g strftime keys) s as = some t) :
    emitted (socketHandlerStep .unbounded g strftime) SocketHandlerState.handlerActs s.socket
        (hostActions as)
      = emitted (networkStep .unbounded g strftime keys) NetworkState.handlerActs s as := by
  induction as generalizing s with
  | nil => rfl
  | cons a as ih =>
    obtain ⟨u, hu, ht⟩ := run_cons_eq_some.mp h
    rw [emitted_cons hu, hostActions_cons, emitted_append (networkStep_host hu),
      emitted_hostAction, ih ht]

/-! ## 設定 -/

/-- 設定の鍵と listener を、動き始めた handler に入れる動作。 -/
def configActs (key : List UInt8) (servers : List σ) : List (NetworkAction ι σ) :=
  [.host (.setSocketPsk key), .host .enablePsk] ++
    servers.map fun v => .host (.attachLogListener v)

/-- まだ何も送っていない間に加わった listener。 -/
def SenderState.attachAll (s : SenderState σ) (vs : List σ) : SenderState σ :=
  { s with
    servers := s.servers ++ vs
    hist := { s.hist with since := s.hist.since ++ vs.map fun _ => s.nextIndex } }

/-- 鍵と listener の設定を終えた socket handler。 -/
def configuredSocket (ι : Type) (name : CStr) (k : Nat) (fn : Formatter) (key : List UInt8)
    (servers : List σ) (out enc : Nat → UInt8) : SocketHandlerState ι σ :=
  { handler := handlerInitial ι .socket name k
    sender := { senderInitial σ fn key out enc with pskEnabled := true }.attachAll servers }

theorem run_attachAll (s : NetworkState ι σ) (vs : List σ) :
    run (networkStep .unbounded g strftime keys) s
        (vs.map fun v => .host (.attachLogListener v))
      = some { s with socket := { s.socket with sender := s.socket.sender.attachAll vs } } := by
  induction vs generalizing s with
  | nil => simp [SenderState.attachAll]
  | cons v vs ih =>
    refine run_cons_eq_some.mpr ⟨_, rfl, (ih _).trans ?_⟩
    simp [SenderState.attachAll, SenderState.nextIndex]

variable {name : CStr} {k : Nat} {fn : Formatter} {key : List UInt8} {servers : List σ}
  {out enc : Nat → UInt8} {r : σ → Receiver}

theorem run_configActs :
    run (networkStep .unbounded g strftime keys)
        ⟨socketHandlerInitial ι σ name k fn key out enc, r⟩ (configActs key servers)
      = some ⟨configuredSocket ι name k fn key servers out enc, r⟩ :=
  run_append_eq_some.mpr ⟨_, rfl, run_attachAll _ servers⟩

omit [DecidableEq ι] [DecidableEq σ] in
/-- 設定の動作は、どれも socket handler のものである。 -/
theorem mem_configActs {a : NetworkAction ι σ} (ha : a ∈ configActs key servers) :
    ∃ b, a = .host b := by
  rcases List.mem_append.mp ha with ha | ha
  · simp only [List.mem_cons, List.not_mem_nil, or_false] at ha
    obtain rfl | rfl := ha
    · exact ⟨_, rfl⟩
    · exact ⟨_, rfl⟩
  · obtain ⟨v, -, rfl⟩ := List.mem_map.mp ha
    exact ⟨_, rfl⟩

omit [DecidableEq ι] [DecidableEq σ] in
theorem deliveries_configActs :
    deliveries (configActs key servers : List (NetworkAction ι σ)) = [] := by
  refine List.filterMap_eq_nil_iff.mpr ?_
  intro a ha
  obtain ⟨b, rfl⟩ := mem_configActs ha
  rfl

omit [DecidableEq ι] [DecidableEq σ] in
theorem hostActions_configActs :
    hostActions (configActs key servers : List (NetworkAction ι σ))
      = [.setSocketPsk key, .enablePsk] ++ servers.map .attachLogListener := by
  induction servers with
  | nil => rfl
  | cons v vs ih => simp [configActs, hostActions]

/-- 鍵・listener・書式を変えない動作。 -/
def SocketHandlerAction.KeepsSettings : SocketHandlerAction ι σ → Prop
  | .attachLogListener _ | .setSocketPsk _ | .enablePsk | .setFormat _ => False
  | .logImpl _ _ | .producer _ _ | .thread _ _ _ | .spuriousWakeup | .destroy => True

/-- socket handler の動作が、鍵・listener・書式を変えない。 -/
def NetworkAction.KeepsSettings : NetworkAction ι σ → Prop
  | .host a => a.KeepsSettings
  | .deliver _ | .inject _ _ => True

omit [DecidableEq ι] [DecidableEq σ] in
theorem keepsSettings_hostActions {as : List (NetworkAction ι σ)}
    (hkeep : ∀ a ∈ as, a.KeepsSettings) : ∀ a ∈ hostActions as, a.KeepsSettings := by
  intro a ha
  obtain ⟨b, hb, heq⟩ := List.mem_filterMap.mp ha
  have hkeep := hkeep b hb
  cases b with
  | host b =>
    obtain rfl := Option.some.inj heq
    exact hkeep
  | deliver | inject => cases heq

omit [DecidableEq ι] [DecidableEq σ] in
theorem attachLogListener_notMem_senderActs {A : CursorArith} {a : SocketHandlerAction ι σ}
    (s : SocketHandlerState ι σ) (h : a.KeepsSettings) :
    ∀ b ∈ s.senderActs A a, ∀ v, b ≠ .attachLogListener v := by
  intro b hb
  cases a with
  | attachLogListener | setSocketPsk | enablePsk | setFormat => exact h.elim
  | thread now rand seen =>
    simp only [SocketHandlerState.senderActs] at hb
    repeat' split at hb
    all_goals simp_all
  | logImpl | producer | spuriousWakeup | destroy => simp [SocketHandlerState.senderActs] at hb

omit [DecidableEq σ] in
/-- listener の一覧は、設定のままである。 -/
theorem servers_eq {s t : SocketHandlerState ι σ} {as : List (SocketHandlerAction ι σ)}
    (hkeep : ∀ a ∈ as, a.KeepsSettings)
    (hrun : run (socketHandlerStep .unbounded g strftime) s as = some t) :
    t.sender.servers = s.sender.servers := by
  have hall : ∀ b ∈ emitted (socketHandlerStep .unbounded g strftime)
      (SocketHandlerState.senderActs .unbounded) s as, ∀ v, b ≠ .attachLogListener v :=
    forall_mem_emitted fun x a ha => attachLogListener_notMem_senderActs x (hkeep a ha)
  refine run_invariant (I := fun u : SenderState σ => u.servers = s.sender.servers) ?_ rfl
    (along_of_forall_mem hall) (sender_run hrun)
  intro u b u' hu hb hs
  cases senderStep_move hs with
  | attachLogListener => exact absurd rfl (hb _)
  | _ => exact hu

omit [DecidableEq ι] [DecidableEq σ] in
/-- 設定の動作に、設定を変えない動作が続く列には、ほかの設定の動作は現れない。 -/
theorem mem_hostActions_configActs {as : List (NetworkAction ι σ)}
    (hkeep : ∀ a ∈ as, a.KeepsSettings) {a : SocketHandlerAction ι σ}
    (ha : a ∈ hostActions (configActs key servers ++ as)) :
    a = .setSocketPsk key ∨ a = .enablePsk ∨ (∃ v, a = .attachLogListener v) ∨
      a.KeepsSettings := by
  rw [hostActions_append, hostActions_configActs] at ha
  rcases List.mem_append.mp ha with ha | ha
  · simp only [List.cons_append, List.nil_append, List.mem_cons, List.mem_map] at ha
    rcases ha with rfl | rfl | ⟨v, -, rfl⟩
    · exact Or.inl rfl
    · exact Or.inr (Or.inl rfl)
    · exact Or.inr (Or.inr (Or.inl ⟨v, rfl⟩))
  · exact Or.inr (Or.inr (Or.inr (keepsSettings_hostActions hkeep a ha)))

omit [DecidableEq ι] [DecidableEq σ] in
/-- 決める鍵は、設定のものだけである。 -/
theorem sets_configActs {as : List (NetworkAction ι σ)} (hkeep : ∀ a ∈ as, a.KeepsSettings) :
    ∀ a ∈ hostActions (configActs key servers ++ as), a.Sets key := by
  intro a ha
  rcases mem_hostActions_configActs hkeep ha with rfl | rfl | ⟨v, rfl⟩ | hkeeps
  · rfl
  · trivial
  · trivial
  · cases a with
    | setSocketPsk => exact hkeeps.elim
    | logImpl | producer | thread | spuriousWakeup | destroy | attachLogListener | enablePsk
    | setFormat => trivial

omit [DecidableEq ι] [DecidableEq σ] in
theorem keepsFormat_configActs {as : List (NetworkAction ι σ)}
    (hkeep : ∀ a ∈ as, a.KeepsSettings) :
    ∀ a ∈ hostActions (configActs key servers ++ as), a.KeepsFormat := by
  intro a ha
  rcases mem_hostActions_configActs hkeep ha with rfl | rfl | ⟨v, rfl⟩ | hkeeps
  · trivial
  · trivial
  · trivial
  · cases a with
    | setFormat => exact hkeeps.elim
    | logImpl | producer | thread | spuriousWakeup | destroy | attachLogListener | enablePsk
    | setSocketPsk => trivial

/-! ## 設定を終えた handler からの実行 -/

section Configured

variable {as : List (NetworkAction ι σ)} {s : NetworkState ι σ} {v : σ}

/--
設定を終えた socket handler の consumer が休んでいて、`v` への datagram が、みな暗号化に成功し、送った
順に一度ずつ届くなら、`v` の program の出力は、すべての claim の行である。
-/
theorem configured_receivers (hk : 1 ≤ k) (hnodup : servers.Nodup) (hv : v ∈ servers)
    (hkey : keys v = key)
    (hrun : run (networkStep .unbounded g strftime keys)
      ⟨configuredSocket ι name k fn key servers out enc, r⟩ as = some s)
    (hkeep : ∀ a ∈ as, a.KeepsSettings) (hunforged : ∀ a ∈ as, a.Unforged g keys)
    (hfits : ∀ c ∈ s.socket.handler.mem.hist.claims, ∀ timestamp, Stamp strftime timestamp →
      ∃ line, fn.Yields (c.formatArgs timestamp) outBufSize line)
    (hreliable : s.Reliable v (deliveries as))
    (hrests : HandlerRests (handlerInitial ι .socket name k)
      (emitted (networkStep .unbounded g strftime keys) NetworkState.handlerActs
        ⟨configuredSocket ι name k fn key servers out enc, r⟩ as) s.socket.handler) :
    ∃ stamps : List CStr, stamps.length = s.socket.handler.mem.hist.claims.length ∧
      (∀ t ∈ stamps, Stamp strftime t) ∧
      (s.receivers v).stdout = (r v).stdout ++
        (List.zipWith (fun t c => EnqueueCall.line fn t c) stamps
          s.socket.handler.mem.hist.claims).flatMap withNewline := by
  have hconfig : run (networkStep .unbounded g strftime keys)
      ⟨socketHandlerInitial ι σ name k fn key out enc, r⟩ (configActs key servers)
        = some ⟨configuredSocket ι name k fn key servers out enc, r⟩ := run_configActs
  have hall := run_append_eq_some.mpr ⟨_, hconfig, hrun⟩
  have hhost := host_run hall
  -- 休んでいるのは、設定の動作を含めた実行でも同じである
  have hrests' : SocketRests g strftime (socketHandlerInitial ι σ name k fn key out enc)
      (hostActions (configActs key servers ++ as)) s.socket := by
    have hsilent : emitted (networkStep .unbounded g strftime keys) NetworkState.handlerActs
        ⟨socketHandlerInitial ι σ name k fn key out enc, r⟩ (configActs key servers) = [] := by
      refine List.eq_nil_iff_forall_not_mem.mpr (forall_mem_emitted ?_)
      intro x a ha b hb
      simp only [configActs, List.cons_append, List.nil_append, List.mem_cons, List.mem_map] at ha
      obtain rfl | rfl | ⟨v, -, rfl⟩ := ha <;> cases hb
    unfold SocketRests
    rw [emitted_hostActions hall, emitted_append hconfig, hsilent, List.nil_append]
    exact hrests
  have hfn := drained_fn_eq (keepsFormat_configActs hkeep) hhost
  have hcarries := (socketHandlerInv_run hk hhost).delivered.drained
    (senderInv_run hhost).slot.requests_eq
  have hstamps := (senderInv_run hhost).format.stamps
  have hfits' := fitsOut_drained hcarries (fun d hd => ⟨hfn d hd, hstamps d hd⟩)
    fun c hc => hfits c (List.mem_of_mem_take hc)
  -- `v` は一覧に一度だけある
  obtain ⟨vs₁, vs₂, rfl⟩ := List.append_of_mem hv
  have hbefore : run (networkStep .unbounded g strftime keys)
      ⟨socketHandlerInitial ι σ name k fn key out enc, r⟩ (configActs key vs₁)
        = some ⟨configuredSocket ι name k fn key vs₁ out enc, r⟩ := run_configActs
  have hw := host_run hbefore
  have hattach : hostActions (configActs key (vs₁ ++ v :: vs₂) ++ as)
      = hostActions (configActs key vs₁) ++ .attachLogListener v ::
        (vs₂.map .attachLogListener ++ hostActions as) := by
    rw [hostActions_append, hostActions_configActs, hostActions_configActs]
    simp
  have hservers : s.socket.sender.servers = vs₁ ++ v :: vs₂ :=
    servers_eq (keepsSettings_hostActions hkeep) (host_run hrun)
  have honce : ∀ j, s.socket.sender.servers[j]? = some v → j = vs₁.length := by
    intro j hj
    rw [hservers] at hj
    have hlt := (List.getElem?_eq_some_iff.mp hj).1
    exact (List.getElem?_inj hlt hnodup).mp (by rw [hj]; simp)
  have hunforged' : ∀ a ∈ configActs key (vs₁ ++ v :: vs₂) ++ as, a.Unforged g keys := by
    intro a ha
    rcases List.mem_append.mp ha with ha | ha
    · obtain ⟨b, rfl⟩ := mem_configActs ha
      trivial
    · exact hunforged a ha
  have harrived : s.arrived v (configActs key (vs₁ ++ v :: vs₂) ++ as)
      = s.socket.sender.hist.attempts.filter (·.server = v) := by
    refine NetworkState.Reliable.arrived_eq ?_
    rw [deliveries_append, deliveries_configActs, List.nil_append]
    exact hreliable
  have hsplit : run (networkStep .unbounded g strftime keys)
      ⟨socketHandlerInitial ι σ name k fn key out enc, r⟩
      ([.host (.setSocketPsk key)] ++ .host .enablePsk ::
        ((vs₁ ++ v :: vs₂).map (fun v => .host (.attachLogListener v)) ++ as)) = some s := hall
  obtain ⟨u, hu, hrest⟩ := run_append_eq_some.mp hsplit
  have htaken : u.socket.handler.taken = 0 := by
    rw [← Option.some.inj hu]
    rfl
  have hstdout := receivers_lines hk hu htaken hrest (sets_configActs hkeep) hunforged' hfits' hkey
  have hlines := attempts_lines hk hhost hfits' hattach hw honce hrests'
  have hlength := hrests'.complete hk hhost
  refine ⟨s.socket.sender.hist.drained.map Drained.timestamp, ?_, ?_, ?_⟩
  · rw [List.length_map, hlength.2]
  · intro t ht
    obtain ⟨d, hd, rfl⟩ := List.mem_map.mp ht
    exact hstamps d hd
  · rw [hstdout]
    show _ ++ (s.arrived v (configActs key (vs₁ ++ v :: vs₂) ++ as)).flatMap _ = _
    rw [harrived, hlines, ← zipWith_line_eq hfn]
    rfl

end Configured

/-! ## 主結果 -/

/-- 実行の中で届いた送信の番号を、届いた順に並べたもの。 -/
def networkDeliveries (as : List (OutletAction ι (NetworkAction ι σ))) : List Nat :=
  as.filterMap fun
    | .outlet (.deliver i) => some i
    | .outlet (.host _) | .outlet (.inject _ _) | .process _ => none

theorem deliveries_outletActs {h : Nat} {s t : OutletState ι (NetworkState ι σ)}
    {as : List (OutletAction ι (NetworkAction ι σ))}
    (hrun : run (outletStep (networkOutlet g strftime keys) h) s as = some t) :
    deliveries (emitted (outletStep (networkOutlet g strftime keys) h)
      (outletActs (networkOutlet g strftime keys) h) s as) = networkDeliveries as := by
  induction as generalizing s with
  | nil => rfl
  | cons a as ih =>
    obtain ⟨u, hu, hrest⟩ := run_cons_eq_some.mp hrun
    have hstep : deliveries (outletActs (networkOutlet g strftime keys) h s a)
        = networkDeliveries [a] := by
      cases a with
      | process act =>
        unfold deliveries outletActs
        rw [List.filterMap_filterMap]
        refine List.filterMap_eq_nil_iff.mpr ?_
        intro b _
        cases b <;> rfl
      | outlet a => cases a <;> rfl
    rw [emitted_cons hu, deliveries_append, hstep, ih hrest]
    exact (List.filterMap_append (l := [a])).symm

omit [DecidableEq ι] [DecidableEq σ] in
/-- ほかの thread の動作は、設定も変えず、datagram も送り込まない。 -/
theorem networkAct_quiet (g : Gcm) (keys : σ → List UInt8) {b : HandlerAction ι}
    {a : NetworkAction ι σ} (h : networkAct b = some a) : a.KeepsSettings ∧ a.Unforged g keys := by
  cases b with
  | thread => cases h
  | logImpl | producer | spuriousWakeup | destroy =>
    obtain rfl := Option.some.inj h
    exact ⟨trivial, trivial⟩

/-- 設定を終えた socket handler から始まる、process の全体。 -/
def networkOutletInitial (ι : Type) (r : Registry) (k : Nat → Nat) (hd : LogHandler)
    (key : List UInt8) (servers : List LogServer) (user : Nat → Formatter) (out enc : Nat → UInt8)
    (receivers : LogServer → Receiver) : OutletState ι (NetworkState ι LogServer) :=
  { process := processInitial ι r k
    outlet := ⟨configuredSocket ι hd.name (k hd.addr) (formatFnOf user hd.formatFn) key servers out
      enc, receivers⟩ }

/--
**呼び出しの順は、受信側の program の出力に現れる。**

`lmk_init` の後の操作で設定を終えた process の、鍵と listener と書式を変えない一つの socket handler に
ついて、`v` はその listener の一つで、同じ鍵を持つとする。送り込まれた datagram は開かず、`v` への
datagram はみな暗号化に成功して送った順に一度ずつ届き、`lmk_destroy` は誰も呼び出しの中にいないときに
始まるとする。
consumer が眠っているか `lmk_destroy` が終わっていれば、`v` の program の出力は、claim された record の
行を順に並べたものである。

どの claim にも持ち主がいて、thread `p` の claim は、`p` の呼び出しのうちこの handler に届くものの
部分列である。drop が無ければ、抜けるものはない。
-/
theorem process_network {env : Env} {auto : Option Cfg} {r : Registry} {ops : List RegistryOp}
    {d : DispatchState} {k : Nat → Nat} {hd : LogHandler} {key : List UInt8}
    {servers : List LogServer} {keys : LogServer → List UInt8} {user : Nat → Formatter}
    {receivers : LogServer → Receiver} {s : OutletState ι (NetworkState ι LogServer)}
    {as : List (OutletAction ι (NetworkAction ι LogServer))} {v : LogServer}
    (hinit : lmkInit env auto Registry.initial = some r)
    (hsetup : run (dispatchStep env) (dispatchInitial r) (ops.map .op) = some d)
    (hfit : Along (dispatchStep env) (fun s _ => s.LoggersFit) (dispatchInitial r) (ops.map .op))
    (hk : ∀ a, 1 ≤ k a) (hhandler : d.registry.handler? hd.addr = some hd)
    (hbody : hd.body = .socket servers (some key)) (hnodup : servers.Nodup) (hv : v ∈ servers)
    (hkey : keys v = key)
    (hrun : run (outletStep (networkOutlet g strftime keys) hd.addr)
      (networkOutletInitial ι d.registry k hd key servers user out enc receivers) as = some s)
    (hkeep : ∀ a ∈ as, a.Holds NetworkAction.KeepsSettings)
    (hunforged : ∀ a ∈ as, a.Holds (NetworkAction.Unforged g keys))
    (hquiet : Along (outletStep (networkOutlet g strftime keys) hd.addr)
      (OutletQuiet (networkOutlet g strftime keys) hd.addr)
      (networkOutletInitial ι d.registry k hd key servers user out enc receivers) as)
    (hfits : ∀ c ∈ s.outlet.socket.handler.mem.hist.claims, ∀ timestamp,
      Stamp strftime timestamp → ∃ line,
        (formatFnOf user hd.formatFn).Yields (c.formatArgs timestamp) outBufSize line)
    (hreliable : s.outlet.Reliable v (networkDeliveries as))
    (hrests : OutletRests (networkOutlet g strftime keys) hd.addr
      (networkOutletInitial ι d.registry k hd key servers user out enc receivers) as s) :
    ∃ (stamps : List CStr) (owners : List ι),
      stamps.length = s.outlet.socket.handler.mem.hist.claims.length ∧
      (∀ t ∈ stamps, Stamp strftime t) ∧
      (s.outlet.receivers v).stdout = (receivers v).stdout ++
        (List.zipWith (fun t c => EnqueueCall.line (formatFnOf user hd.formatFn) t c) stamps
          s.outlet.socket.handler.mem.hist.claims).flatMap withNewline ∧
      owners.length = s.outlet.socket.handler.mem.hist.claims.length ∧ ∀ p,
        ((claimsOf p owners s.outlet.socket.handler.mem.hist.claims).map
            fun c => c.record.payload).Sublist
          (((calledBy p (processActions as)).filter fun call => d.Qualifies call hd.addr).map
            LogCall.payload) ∧
        (s.outlet.socket.handler.dropped = 0 →
          ((claimsOf p owners s.outlet.socket.handler.mem.hist.claims).map
              fun c => c.record.payload)
            = ((calledBy p (processActions as)).filter fun call =>
                d.Qualifies call hd.addr).map LogCall.payload) := by
  have hd' : DispatchInv d := (dispatchInv_initial hinit).run hfit hsetup
  have hstart : (networkOutletInitial ι d.registry k hd key servers user out enc receivers).whole
      (networkOutlet g strftime keys) hd.addr = processInitial ι d.registry k := by
    refine whole_processInitial hhandler ?_
    rw [hbody]
    rfl
  obtain ⟨owners, howners, hclaims⟩ := outlet_claims hd' hk hstart hquiet hrun
  have hlive : (d.registry.handler? hd.addr).isSome = true := by
    rw [hhandler]
    rfl
  have hdeliveries := deliveries_outletActs hrun
  obtain ⟨stamps, hlen, hstamps, hstdout⟩ := configured_receivers (hk hd.addr) hnodup hv hkey
    (outlet_run hrun)
    (forall_mem_outletActs (fun _ _ hb => (networkAct_quiet g keys hb).1) hkeep)
    (forall_mem_outletActs (fun _ _ hb => (networkAct_quiet g keys hb).2) hunforged) hfits
    (hdeliveries ▸ hreliable)
    (hrests.handlerRests hd' hk hstart hquiet hrun hlive)
  exact ⟨stamps, owners, hlen, hstamps, hstdout, howners,
    fun p => ⟨(hclaims p).1, (hclaims p).2 hrests⟩⟩

/-- 番地 1 の logger に、鍵と listener を持つ番地 2 の socket handler を付ける操作。 -/
def sentOps : List RegistryOp :=
  [.getLogger (some consoleName), .getSocketLogHandler (some (.lit [120])),
    .setSocketPsk (some 2) (some (.lit [115])),
    .attachLogListener (some 2) (some (.lit (ascii "127.0.0.1"))) 9000,
    .setLogFormat (some 2) (some (.user 0)), .attachLogHandler (some 1) (some 2)]

/-- PSK から `secretKey` を導く環境。 -/
def secretEnv : Env := { Env.loopback with deriveKey := fun _ => secretKey }

/-- `sentOps` の listener。 -/
def localServer : LogServer := { sinAddr := 0x0100007f, sinPort := 9000 }

/-- `sentRun` の初期値。 -/
def sentIv : List UInt8 := [0, 1, 2, 3, 4, 5, 6, 7, 8, 9, 10, 11]

theorem length_sentIv : sentIv.length = cryptoIvLen := rfl

/-- 一つ log を呼び、consumer がそれを送って眠り、datagram が届く。 -/
def sentRun : List (OutletAction Unit (NetworkAction Unit LogServer)) :=
  [.process (.log () (helloCall (ascii "hi"))), .process (.offer ())] ++
    List.replicate 16 (.process (.logImpl () false)) ++ [.process (.offer ())] ++
    List.replicate 15 (.outlet (.host (.thread 1 (some ⟨sentIv, length_sentIv⟩) secretKey))) ++
    [.outlet (.deliver 0)]

/-- `sentOps` の socket handler から始まる、process の全体。 -/
def sentInitial (r : Registry) (hd : LogHandler) : OutletState Unit (NetworkState Unit LogServer) :=
  networkOutletInitial Unit r (fun _ => 1) hd secretKey [localServer]
    (fun _ => .ofText fun _ => [120, 10]) (fun _ => 0) (fun _ => 0)
    fun _ => ⟨fun _ => 0, fun _ => 0, []⟩

theorem process_network_sentRun :
    ∃ d hd s,
      run (dispatchStep secretEnv) (dispatchInitial readyRegistry) (sentOps.map .op) = some d ∧
      run (outletStep (networkOutlet secretGcm (fun _ => .empty) fun _ => secretKey) 2)
        (sentInitial d.registry hd) sentRun = some s ∧
      s.outlet.socket.handler.mem.hist.claims.length = 1 ∧
      (s.outlet.receivers localServer).stdout = [120, 10] ∧
      ∃ owners : List Unit, owners.length = 1 ∧
        ((claimsOf () owners s.outlet.socket.handler.mem.hist.claims).map
            fun c => c.record.payload)
          = ((calledBy () (processActions sentRun)).filter fun call => d.Qualifies call 2).map
              LogCall.payload := by
  have hsetup : Along (dispatchStep secretEnv) (fun s _ => s.LoggersFit)
      (dispatchInitial readyRegistry) (sentOps.map .op) := by decide +kernel
  have hstate : ((run (dispatchStep secretEnv) (dispatchInitial readyRegistry)
      (sentOps.map .op)).bind fun d => (d.registry.handler? 2).bind fun hd =>
        (run (outletStep (networkOutlet secretGcm (fun _ => .empty) fun _ => secretKey) 2)
          (sentInitial d.registry hd) sentRun).map fun s =>
            (decide (hd.addr = 2 ∧ hd.body = .socket [localServer] (some secretKey) ∧
                hd.formatFn = some (.user 0)),
              decide ((s.process.callers ()).isIdle ∧ s.outlet.socket.handler.thread.isParked ∧
                s.outlet.socket.handler.dropped = 0 ∧
                s.outlet.socket.handler.mem.hist.claims.length = 1 ∧
                s.outlet.socket.sender.hist.attempts.map (fun x => x.packet.isSome) = [true])))
      = some (true, true) := by
    decide +kernel
  obtain ⟨d, hd, hstate⟩ := Option.bind_eq_some_iff.mp hstate
  obtain ⟨lh, hlh, hstate⟩ := Option.bind_eq_some_iff.mp hstate
  obtain ⟨s, hs, hp⟩ := Option.map_eq_some_iff.mp hstate
  simp only [Prod.mk.injEq, decide_eq_true_eq, CallerPc.isIdle_iff, ThreadPc.isParked_iff] at hp
  obtain ⟨⟨haddr, hbody, hformat⟩, hidle, hparked, hdropped, hclaims, hattempts⟩ := hp
  have hquiet : Along (outletStep (networkOutlet secretGcm (fun _ => .empty) fun _ => secretKey) 2)
      (OutletQuiet (networkOutlet secretGcm (fun _ => .empty) fun _ => secretKey) 2)
      (sentInitial d.registry lh) sentRun := outletQuiet_of_notDestroy (by simp [sentRun])
  have hrests : OutletRests (networkOutlet secretGcm (fun _ => .empty) fun _ => secretKey) 2
      (sentInitial d.registry lh) sentRun s := Or.inl ⟨fun _ => hidle, hparked⟩
  have hfits : ∀ c ∈ s.outlet.socket.handler.mem.hist.claims, ∀ timestamp,
      Stamp (fun _ => .empty) timestamp → ∃ line,
        (formatFnOf (fun _ => .ofText fun _ => [120, 10]) lh.formatFn).Yields
          (c.formatArgs timestamp) outBufSize line := by
    intro c _ timestamp _
    rw [hformat]
    exact ⟨[120, 10], Formatter.ofText_yields (by decide)⟩
  have hs' := hs
  rw [← haddr] at hs' hquiet hrests hlh
  obtain ⟨stamps, owners, hstamps, -, hstdout, howners, hcalls⟩ :=
    process_network (v := localServer) (lmkInit_readyRegistry secretEnv) hd hsetup
      (fun _ => Nat.le_refl 1) hlh hbody (by decide) (by decide) rfl hs'
      (by simp [sentRun, OutletAction.Holds, NetworkAction.KeepsSettings,
        SocketHandlerAction.KeepsSettings])
      (by simp [sentRun, OutletAction.Holds, NetworkAction.Unforged]) hquiet hfits
      (reliable_one hattempts localServer) hrests
  obtain ⟨c, hc⟩ := List.length_eq_one_iff.mp hclaims
  obtain ⟨t, ht⟩ := List.length_eq_one_iff.mp (hstamps.trans hclaims)
  rw [hc, ht, hformat] at hstdout
  refine ⟨d, lh, s, hd, hs, hclaims, hstdout.trans ?_, owners, howners.trans hclaims, ?_⟩
  · show [] ++ ([EnqueueCall.line (.ofText fun _ => [120, 10]) t c].flatMap withNewline) = _
    rw [EnqueueCall.line_ofText (by decide)]
    rfl
  · rw [haddr] at hcalls
    exact (hcalls ()).2 hdropped

end Logmoko
