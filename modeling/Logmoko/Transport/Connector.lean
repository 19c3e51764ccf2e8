import Logmoko.Lib.Ledger
import Logmoko.Lib.Run
import Logmoko.Registry.Model
import Mathlib.Data.Finset.Basic
import Mathlib.Logic.Function.Basic

/-!
# socket の handler の descriptor

`lmk_socket_log_handler_init` が開いた descriptor は、consumer の thread が `sendto` に渡し、
init の失敗の後始末か `lmk_socket_log_handler_destroy` が閉じる。
handler は作られた順の番号で区別し、それぞれの thread が一文ずつ進む。

descriptor の番号は process 全体で一つである。`socket()` は開いていない番号を返し、
呼び出し側の program も自分の descriptor を開いたり閉じたりする。
-/

namespace Logmoko

open Transition Ledger

/-! ## 状態 -/

/-- consumer の thread の位置。`sending` は一件を `i` 番目の listener まで送り終えている。 -/
inductive SenderPc where
  | idle
  | sending (usePsk : Bool) (i : Nat)
  | exited
deriving DecidableEq

/-- handler の一生のうちの、どこにいるか。 -/
inductive SocketPhase where
  /-- まだ確保されていない。 -/
  | absent
  /-- `lmk_open_udp_socket` を呼ぶところ。 -/
  | opening
  /-- ring を確保するところ。 -/
  | allocating
  /-- 確保に失敗し、socket を閉じるところ。 -/
  | ringFailed
  /-- thread を作るところ。 -/
  | spawning
  /-- thread の生成に失敗し、socket を閉じるところ。 -/
  | threadFailed
  | live (c : SenderPc)
  /-- `destroy` が `running` を 0 にし、consumer の終わりを待っている。 -/
  | stopping (c : SenderPc)
  /-- consumer が終わり、socket を閉じるところ。 -/
  | joined
  /-- 解放された。 -/
  | gone
deriving DecidableEq

/-- 構造体 `lmk_socket_log_handler` と、ring に積まれた記録の数。 -/
structure SocketHandler where
  phase : SocketPhase
  sockd : Nat
  servers : List LogServer
  pskEnabled : Bool
  pending : Nat

/-- `lmk_malloc` は 0 で埋めるので、`sockd` は 0 である。 -/
def SocketHandler.zeroed : SocketHandler :=
  { phase := .opening, sockd := 0, servers := [], pskEnabled := false, pending := 0 }

/-- process の descriptor と、すべての handler。 -/
structure SocketSystem where
  openFds : Finset Nat
  hostFds : Finset Nat
  handlers : Nat → SocketHandler

/-- program の descriptor だけが開いている。 -/
def socketInitial (host : Finset Nat) : SocketSystem :=
  { openFds := host, hostFds := host
    handlers := fun _ => { SocketHandler.zeroed with phase := .absent } }

/-! ## 動作 -/

/-- descriptor を開きも閉じもしない動作。真偽値は呼び出しの成否である。 -/
inductive SocketStep where
  | allocRing (ok : Bool)
  | createThread (ok : Bool)
  | attach (server : LogServer)
  | setPsk
  | log (accepted : Bool)
  | peek (formatted : Bool)
  | send (encrypted : Bool)
  | consume
  | exit
  | destroy
  | join

inductive SocketAction where
  | create (h : Nat)
  | socket (h : Nat) (fd : Option Nat)
  | close (h : Nat)
  | step (h : Nat) (a : SocketStep)
  | hostOpen (fd : Nat)
  | hostClose (fd : Nat)

def SocketPhase.sender? : SocketPhase → Option SenderPc
  | .live c | .stopping c => some c
  | _ => none

def SocketPhase.setSender (c : SenderPc) : SocketPhase → SocketPhase
  | .live _ => .live c
  | .stopping _ => .stopping c
  | p => p

/-- handler 一つの、一文の動作。 -/
def SocketHandler.step (hd : SocketHandler) : SocketStep → Option SocketHandler
  | .allocRing ok =>
    if hd.phase = .allocating then
      some { hd with phase := if ok then .spawning else .ringFailed }
    else none
  | .createThread ok =>
    if hd.phase = .spawning then
      some { hd with phase := if ok then .live .idle else .threadFailed }
    else none
  | .attach server =>
    match hd.phase with
    | .live _ => some { hd with servers := hd.servers ++ [server] }
    | _ => none
  | .setPsk =>
    match hd.phase with
    | .live _ => some { hd with pskEnabled := true }
    | _ => none
  -- 受け付けないのは、`running` が 0 か、ring に空きが無いときである
  | .log accepted =>
    if hd.phase.sender?.isSome then
      some { hd with pending := if accepted then hd.pending + 1 else hd.pending }
    else none
  -- 書式化に失敗した記録は送られずに捨てられる。`psk_enabled` は記録ごとに一度だけ読む
  | .peek formatted =>
    if hd.phase.sender? = some .idle ∧ 0 < hd.pending then
      some (if formatted then { hd with phase := hd.phase.setSender (.sending hd.pskEnabled 0) }
        else { hd with pending := hd.pending - 1 })
    else none
  | .send _ =>
    match hd.phase.sender? with
    | some (.sending usePsk i) =>
      if i < hd.servers.length then
        some { hd with phase := hd.phase.setSender (.sending usePsk (i + 1)) }
      else none
    | _ => none
  | .consume =>
    match hd.phase.sender? with
    | some (.sending _ i) =>
      if hd.servers.length ≤ i then
        some { hd with phase := hd.phase.setSender .idle, pending := hd.pending - 1 }
      else none
    | _ => none
  -- ring が空なのを見た後に積まれた記録は、残っていることがある
  | .exit =>
    if hd.phase = .stopping .idle then some { hd with phase := .stopping .exited } else none
  | .destroy =>
    match hd.phase with
    | .live c => some { hd with phase := .stopping c }
    | _ => none
  | .join =>
    if hd.phase = .stopping .exited then some { hd with phase := .joined, pending := 0 } else none

/-- `lmk_close_udp_socket` を呼ぶところ。 -/
def SocketPhase.Closing : SocketPhase → Bool
  | .ringFailed | .threadFailed | .joined => true
  | _ => false

def SocketSystem.put (s : SocketSystem) (h : Nat) (hd : SocketHandler) : SocketSystem :=
  { s with handlers := Function.update s.handlers h hd }

/-- 系の一 step。`socket()` が失敗すると、`sockd` には何も書かれない。 -/
def socketStep (s : SocketSystem) : SocketAction → Option SocketSystem
  | .create h => if (s.handlers h).phase = .absent then some (s.put h .zeroed) else none
  | .socket h fd =>
    if (s.handlers h).phase = .opening then
      match fd with
      | some fd =>
        if fd ∈ s.openFds then none
        else some { s.put h { s.handlers h with phase := .allocating, sockd := fd } with
          openFds := insert fd s.openFds }
      | none => some (s.put h { s.handlers h with phase := .allocating })
    else none
  | .close h =>
    if (s.handlers h).phase.Closing then
      some { s.put h { s.handlers h with phase := .gone } with
        openFds := s.openFds.erase (s.handlers h).sockd
        hostFds := s.hostFds.erase (s.handlers h).sockd }
    else none
  | .step h a => ((s.handlers h).step a).map (s.put h)
  | .hostOpen fd =>
    if fd ∈ s.openFds then none
    else some { s with openFds := insert fd s.openFds, hostFds := insert fd s.hostFds }
  | .hostClose fd =>
    if fd ∈ s.hostFds then
      some { s with openFds := s.openFds.erase fd, hostFds := s.hostFds.erase fd }
    else none

/-- 暗号化に失敗した packet は送られない。 -/
def SocketHandler.sends (hd : SocketHandler) (encrypted : Bool) : Bool :=
  match hd.phase.sender? with
  | some (.sending usePsk _) => !usePsk || encrypted
  | _ => false

/-- その動作が、どの handler のどの descriptor を開き、使い、閉じるか。 -/
def socketEvents (s : SocketSystem) : SocketAction → List (Event Nat Nat)
  | .socket h (some fd) => [.acquire h fd]
  | .step h (.send encrypted) =>
    if (s.handlers h).sends encrypted then [.use h (s.handlers h).sockd] else []
  | .close h => [.release h (s.handlers h).sockd]
  | _ => []

end Logmoko
