import Logmoko.Lib.Run
import Logmoko.Transport.RoundTrip

/-!
# socket handler の consumer

`lmk_socket_log_handler_thread_routine` の一つの slot の処理を、一つの listener への送信を
一 step として写す。`lmk_attach_log_listener`・`lmk_set_socket_psk`・`lmk_set_log_format` は
別の thread から呼ばれるので、consumer のどの step の間にも入りうる動作とする。

`psk_enabled` は slot ごとに一度だけ読む。鍵 `psk_key` は lock なしに書かれるので、書いている
途中に読んだ鍵は byte ごとに前か後の値である（`tornRead`）。書き終えてから `psk_enabled` を
1 にする。`lmk_set_socket_psk` を呼ぶ thread は同時に一つだけとする。

ring から次の slot が取れるかどうかは外から与える（動作 `slot`）。
-/

namespace Logmoko

open Transition

/-! ## 状態 -/

/-- consumer の位置。`n` は整形した長さ、`cursor` は次に送る listener の番号である。 -/
inductive SendPc where
  | peek
  | format (now : Int) (req : LogRequest)
  | loadPsk (n : Nat)
  | sending (n : Nat) (usePsk : Bool) (cursor : Nat)
  | consume

/--
一つの listener に送ろうとしたことの控え。`index` は何番目に取り出した record かを、
`listener` は一覧の何番目かを表す。`key` は暗号に使った鍵、`packet` は送った datagram である。
-/
structure Attempt (σ : Type) where
  index : Nat
  listener : Nat
  server : σ
  key : Option (List UInt8)
  packet : Option (List UInt8)

/--
実行の控え。program の変数ではない。
`since` の `j` 番目は、`j` 番目の listener が加わったときに、次に送られるはずだった record の番号である。
-/
structure SenderHistory (σ : Type) where
  peeked : List (Int × LogRequest)
  drained : List Drained
  outputs : List (List UInt8)
  attempts : List (Attempt σ)
  since : List Nat

/-- socket handler と、その thread の状態。`writing` は書いている途中の鍵である。 -/
structure SenderState (σ : Type) where
  pc : SendPc
  servers : List σ
  pskEnabled : Bool
  pskKey : List UInt8
  writing : Option (List UInt8)
  formatFn : Formatter
  cache : TsCache
  out : Nat → UInt8
  enc : Nat → UInt8
  hist : SenderHistory σ

variable {σ : Type}

/-- `lmk_socket_log_handler_init` を終えて thread が動き始めた状態。 -/
def senderInitial (σ : Type) (fn : Formatter) (key : List UInt8) (out enc : Nat → UInt8) :
    SenderState σ :=
  { pc := .peek, servers := [], pskEnabled := false, pskKey := key, writing := none, formatFn := fn
    cache := .empty, out, enc
    hist := { peeked := [], drained := [], outputs := [], attempts := [], since := [] } }

/-- 新しい listener に、次に送られるはずの record の番号。送り終えた slot は数えない。 -/
def SenderState.nextIndex (s : SenderState σ) : Nat :=
  match s.pc with
  | .peek | .consume => s.hist.peeked.length
  | .format _ _ | .loadPsk _ | .sending _ _ _ => s.hist.peeked.length - 1

/-- 次に送る listener の番号。 -/
def SendPc.cursor : SendPc → Nat
  | .sending _ _ cursor => cursor
  | _ => 0

/-! ## 動作 -/

/-- 鍵 `old` の上に `new` を書いている途中で読める値。byte ごとに前か後である。 -/
def tornRead : List UInt8 → List UInt8 → List UInt8 → Bool
  | a :: old, b :: new, c :: seen => (c == a || c == b) && tornRead old new seen
  | [], [], [] => true
  | _, _, _ => false

/-- 暗号化が読む鍵。 -/
def SenderState.readsKey (s : SenderState σ) (seen : List UInt8) : Bool :=
  match s.writing with
  | none => seen == s.pskKey
  | some key => tornRead s.pskKey key seen

/-- consumer の step と、別の thread からの設定。 -/
inductive SenderAction (σ : Type) where
  | slot (now : Int) (req : LogRequest)
  | step (rand : Option Iv) (seen : List UInt8)
  | attachLogListener (server : σ)
  | setSocketPsk (key : List UInt8)
  | enablePsk
  | setFormat (fn : Formatter)

/-- 送ろうとしたことを控えて、次の listener に進む。 -/
def SenderState.attempt (s : SenderState σ) (n : Nat) (usePsk : Bool) (cursor : Nat) (server : σ)
    (key packet : Option (List UInt8)) : SenderState σ :=
  { s with
    pc := .sending n usePsk (cursor + 1)
    hist := { s.hist with
      attempts := s.hist.attempts ++
        [{ index := s.hist.peeked.length - 1, listener := cursor, server, key, packet }] } }

/-- 暗号化して一つの server に送る。暗号化に失敗した server には送らない。 -/
def SenderState.sendPsk (g : Gcm) (rand : Option Iv) (seen : List UInt8) (s : SenderState σ)
    (n cursor : Nat) (server : σ) : SenderState σ :=
  match encryptPacket g rand seen (Buffer.read s.out 0 n) s.enc with
  | some (enc, encLen) =>
    { s.attempt n true cursor server (some seen) (some (Buffer.read enc 0 encLen)) with enc }
  | none => s.attempt n true cursor server (some seen) none

/-- 整形の step。 -/
def SenderState.formatted (strftime : Int → CStr) (s : SenderState σ) (now : Int)
    (req : LogRequest) : SenderState σ :=
  let p := lmkFormatLogLine strftime s.formatFn s.cache now s.out 0 outBufSize req
  { s with
    cache := p.1
    out := p.2.2
    pc := if p.2.1 > 0 then .loadPsk p.2.1.toNat else .consume
    hist := { s.hist with
      drained := s.hist.drained ++
        [{ fn := s.formatFn, timestamp := p.1.text, now := now, req := req }]
      outputs := s.hist.outputs ++ [Buffer.read p.2.2 0 p.2.1.toNat] } }

/-- consumer の一 step。 -/
def senderThread (g : Gcm) (strftime : Int → CStr) (rand : Option Iv) (seen : List UInt8)
    (s : SenderState σ) : Option (SenderState σ) :=
  match s.pc with
  | .peek => none
  | .format now req => some (s.formatted strftime now req)
  | .loadPsk n => some { s with pc := .sending n s.pskEnabled 0 }
  | .sending n usePsk cursor =>
    match s.servers[cursor]? with
    | none => some { s with pc := .consume }
    | some server =>
      if usePsk then
        if s.readsKey seen then some (s.sendPsk g rand seen n cursor server) else none
      else some (s.attempt n false cursor server none (some (Buffer.read s.out 0 n)))
  | .consume => some { s with pc := .peek }

/-- socket handler の一 step。 -/
def senderStep (g : Gcm) (strftime : Int → CStr) (s : SenderState σ) :
    SenderAction σ → Option (SenderState σ)
  | .slot now req =>
    match s.pc with
    | .peek => some { s with
        pc := .format now req
        hist := { s.hist with peeked := s.hist.peeked ++ [(now, req)] } }
    | _ => none
  | .step rand seen => senderThread g strftime rand seen s
  | .attachLogListener server => some { s with
      servers := s.servers ++ [server]
      hist := { s.hist with since := s.hist.since ++ [s.nextIndex] } }
  | .setSocketPsk key =>
    match s.writing with
    | none => some { s with writing := some key }
    | some _ => none
  | .enablePsk => s.writing.map fun key =>
      { s with pskKey := key, writing := none, pskEnabled := true }
  | .setFormat fn => some { s with formatFn := fn }

/-! ## 場合分け -/

/-- socket handler の一 step が何をしうるか。 -/
inductive SenderMove (g : Gcm) (strftime : Int → CStr) (s : SenderState σ) :
    SenderAction σ → SenderState σ → Prop where
  | slot {now req} (h : s.pc = .peek) :
    SenderMove g strftime s (.slot now req)
      { s with
        pc := .format now req
        hist := { s.hist with peeked := s.hist.peeked ++ [(now, req)] } }
  | format {rand seen now req} (h : s.pc = .format now req) :
    SenderMove g strftime s (.step rand seen) (s.formatted strftime now req)
  | loadPsk {rand seen n} (h : s.pc = .loadPsk n) :
    SenderMove g strftime s (.step rand seen) { s with pc := .sending n s.pskEnabled 0 }
  | endOfList {rand seen n usePsk cursor} (h : s.pc = .sending n usePsk cursor)
      (hc : s.servers[cursor]? = none) :
    SenderMove g strftime s (.step rand seen) { s with pc := .consume }
  | encrypted {seen n cursor server enc} {iv : Iv} (h : s.pc = .sending n true cursor)
      (hc : s.servers[cursor]? = some server) (hk : s.readsKey seen = true) :
    SenderMove g strftime s (.step (some iv) seen)
      { s.attempt n true cursor server (some seen)
          (some (packetOf g seen iv.bytes (Buffer.read s.out 0 n))) with enc }
  | encryptFailed {seen n cursor server} (h : s.pc = .sending n true cursor)
      (hc : s.servers[cursor]? = some server) (hk : s.readsKey seen = true) :
    SenderMove g strftime s (.step none seen) (s.attempt n true cursor server (some seen) none)
  | plain {rand seen n cursor server} (h : s.pc = .sending n false cursor)
      (hc : s.servers[cursor]? = some server) :
    SenderMove g strftime s (.step rand seen)
      (s.attempt n false cursor server none (some (Buffer.read s.out 0 n)))
  | consume {rand seen} (h : s.pc = .consume) :
    SenderMove g strftime s (.step rand seen) { s with pc := .peek }
  | attachLogListener {server} :
    SenderMove g strftime s (.attachLogListener server)
      { s with
        servers := s.servers ++ [server]
        hist := { s.hist with since := s.hist.since ++ [s.nextIndex] } }
  | setSocketPsk {key} (h : s.writing = none) :
    SenderMove g strftime s (.setSocketPsk key) { s with writing := some key }
  | enablePsk {key} (h : s.writing = some key) :
    SenderMove g strftime s .enablePsk
      { s with pskKey := key, writing := none, pskEnabled := true }
  | setFormat {fn} : SenderMove g strftime s (.setFormat fn) { s with formatFn := fn }

variable {g : Gcm} {strftime : Int → CStr} {s s' : SenderState σ} {a : SenderAction σ}

theorem sendPsk_move {rand : Option Iv} {seen : List UInt8} {n cursor : Nat} {server : σ}
    (h : s.pc = .sending n true cursor) (hc : s.servers[cursor]? = some server)
    (hk : s.readsKey seen = true) :
    SenderMove g strftime s (.step rand seen) (s.sendPsk g rand seen n cursor server) := by
  cases rand with
  | none => exact .encryptFailed h hc hk
  | some iv =>
    obtain ⟨enc, heq, hread⟩ := encryptPacket_eq g seen (Buffer.read s.out 0 n) iv s.enc
    unfold SenderState.sendPsk
    rw [heq]
    dsimp only
    rw [hread]
    exact .encrypted h hc hk

/-- 一 step の場合分け。 -/
theorem senderStep_move (h : senderStep g strftime s a = some s') :
    SenderMove g strftime s a s' := by
  cases a with
  | slot now req =>
    simp only [senderStep] at h
    split at h
    · next hpc => rw [← Option.some.inj h]; exact .slot hpc
    · cases h
  | step rand seen =>
    simp only [senderStep, senderThread] at h
    split at h
    · cases h
    · next hpc => rw [← Option.some.inj h]; exact .format hpc
    · next hpc => rw [← Option.some.inj h]; exact .loadPsk hpc
    · next n usePsk cursor hpc =>
      split at h
      · next hc => rw [← Option.some.inj h]; exact .endOfList hpc hc
      · next server hc =>
        split at h
        · next hu =>
          subst hu
          split at h
          · next hk => rw [← Option.some.inj h]; exact sendPsk_move hpc hc hk
          · cases h
        · next hu =>
          obtain rfl := Bool.eq_false_of_not_eq_true hu
          rw [← Option.some.inj h]
          exact .plain hpc hc
    · next hpc => rw [← Option.some.inj h]; exact .consume hpc
  | attachLogListener server => rw [← Option.some.inj h]; exact .attachLogListener
  | setSocketPsk key =>
    simp only [senderStep] at h
    split at h
    · next hw => rw [← Option.some.inj h]; exact .setSocketPsk hw
    · cases h
  | enablePsk =>
    obtain ⟨key, hw, hs⟩ := Option.map_eq_some_iff.mp h
    rw [← hs]
    exact .enablePsk hw
  | setFormat fn => rw [← Option.some.inj h]; exact .setFormat

end Logmoko
