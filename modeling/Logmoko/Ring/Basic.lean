import Logmoko.CStr
import Mathlib.Logic.Function.Basic
import Mathlib.Data.Nat.Bitwise

/-!
# ring buffer の data と一 step

`logmoko.h` の lock-free ring（Vyukov の MPMC queue）を、原子的な操作ひとつを一 step として写す。

* `lmkNextPow2` / `lmkRingInit` — 大きさの切り上げと初期化
* `enqueueStep` — `lmk_ring_enqueue` の一 step
* `lmkRingPeekSlot` — consumer の覗き見
* `lmkRingConsume` の二つの書き込み — `consumeStore` と `consumeTail`

## cursor の算術

`size_t` の cursor と `intptr_t` の差は `CursorArith` として外に出す。
`unbounded` は桁あふれのない整数、`machine w` は `w` bit の巻き戻る語である。
同じ step 関数を両方で読むので、桁あふれの議論は算術の差だけに閉じる。

## 履歴

`History` は program の変数ではない。どの呼び出しがどの順で位置を取り、
consumer が何を受け取ったかを証明のために控えておくだけで、
どの step もこれを読んで動作を変えることはない。
-/

namespace Logmoko

/-! ## data -/

/-- 配列 `req.data` の大きさ `LMK_LOG_MSG_MAX_SIZE`。 -/
def logMsgMaxSize : Nat := 2048

/-- 構造体 `lmk_log_record`。`data` は少なくとも `data_len` byte 読める。 -/
structure LogRecord where
  logLevel : Int
  data : List UInt8
  dataLen : Nat
  lineNo : Int
  fileName : CStr
  dataLen_le : dataLen ≤ data.length

/-- 構造体 `lmk_log_request`。`data` は添字から byte への写像で、`logMsgMaxSize` 未満だけを使う。 -/
structure LogRequest where
  logLevel : Int
  data : Nat → UInt8
  lineNo : Int
  fileName : CStr
  handlerName : CStr

/-- 構造体 `lmk_ring_slot`。 -/
structure RingSlot where
  sequence : Nat
  req : LogRequest

/-- ring の本体と二つの cursor。 -/
structure Ring where
  slots : Nat → RingSlot
  head : Nat
  tail : Nat
  mask : Nat

/-- 位置 `pos` の slot の添字 `pos & mask`。 -/
def Ring.index (r : Ring) (pos : Nat) : Nat := pos &&& r.mask

/-- 位置 `pos` の slot。 -/
def Ring.slotAt (r : Ring) (pos : Nat) : RingSlot := r.slots (r.index pos)

/-- ring の大きさ。 -/
def Ring.size (r : Ring) : Nat := r.mask + 1

/-- 位置 `pos` の slot の `sequence` への store。 -/
def Ring.setSequence (r : Ring) (pos v : Nat) : Ring :=
  { r with slots := Function.update r.slots (r.index pos) { r.slotAt pos with sequence := v } }

/-- 位置 `pos` の slot の payload への書き込み。 -/
def Ring.setReq (r : Ring) (pos : Nat) (req : LogRequest) : Ring :=
  { r with slots := Function.update r.slots (r.index pos) { r.slotAt pos with req := req } }

/-- `v` 以上で最小の 2 の冪（最小 2）。 -/
def lmkNextPow2 (v : Nat) : Nat :=
  if v < 2 then 2
  else
    let v := v - 1
    let v := v ||| (v >>> 1)
    let v := v ||| (v >>> 2)
    let v := v ||| (v >>> 4)
    let v := v ||| (v >>> 8)
    let v := v ||| (v >>> 16)
    let v := v ||| (v >>> 32)
    v + 1

/-- 確保した直後の（0 で埋めた）payload。 -/
def LogRequest.zero : LogRequest :=
  { logLevel := 0, data := fun _ => 0, lineNo := 0, fileName := .empty, handlerName := .empty }

/-- 大きさ `size` の ring の初期状態。`slot[i].sequence` は `i` である。 -/
def lmkRingInit (size : Nat) : Ring :=
  { slots := fun i => { sequence := if i < size then i else 0, req := .zero }
    head := 0, tail := 0, mask := size - 1 }

/-! ## cursor の算術 -/

/-- cursor を語に収める `wrap` と、符号つきの差 `diff`。 -/
structure CursorArith where
  wrap : Nat → Nat
  diff : Nat → Nat → Int

/-- 桁あふれのない算術。 -/
def CursorArith.unbounded : CursorArith where
  wrap n := n
  diff a b := (a : Int) - b

/-- `w` bit の語と、二の補数による差。 -/
def CursorArith.machine (w : Nat) : CursorArith where
  wrap n := n % 2 ^ w
  diff a b := ((a : Int) - b).bmod (2 ^ w)

/-! ## 呼び出しと履歴 -/

/-- 一回の `lmk_ring_enqueue` の呼び出し。`id` は呼び出しを区別するための番号である。 -/
structure EnqueueCall where
  id : Nat
  record : LogRecord
  handlerName : CStr

/-- copy する byte 数。`data_len` と `LMK_LOG_MSG_MAX_SIZE - 1` の小さい方。 -/
def EnqueueCall.copyLen (c : EnqueueCall) : Nat :=
  if c.record.dataLen < logMsgMaxSize - 1 then c.record.dataLen else logMsgMaxSize - 1

/-- 成功した CAS の順に並んだ呼び出し、受け取られた request、返り値の控え。 -/
structure History where
  claims : List EnqueueCall
  consumed : List LogRequest
  returned : List (Nat × Bool)
  nextCall : Nat

/-- 何も起きていない履歴。 -/
def History.empty : History := { claims := [], consumed := [], returned := [], nextCall := 0 }

/-- 共有される状態。 -/
structure Shared where
  ring : Ring
  hist : History

/-! ## `lmk_ring_enqueue` の一 step -/

/-- claim した slot への書き込みのどこにいるか。 -/
inductive WriteStage where
  | level
  | line
  | file
  | handler
  /-- 次に書く `data` の添字。`copyLen` に達したら終端の NUL を書く。 -/
  | copy (i : Nat)
  /-- 書き終えて、`sequence` の release store を待つ。 -/
  | publish
deriving DecidableEq

/-- `lmk_ring_enqueue` の実行位置。 -/
inductive EnqueuePc where
  | loadHead
  | loadSeq (pos : Nat)
  | cas (pos : Nat)
  | writing (pos : Nat) (stage : WriteStage)
  | ret (ok : Bool)
deriving DecidableEq

/-- 一つの payload の書き込み。 -/
def WriteStage.write (c : EnqueueCall) (req : LogRequest) : WriteStage → LogRequest
  | .level => { req with logLevel := c.record.logLevel }
  | .line => { req with lineNo := c.record.lineNo }
  | .file => { req with fileName := c.record.fileName }
  | .handler => { req with handlerName := c.handlerName }
  | .copy i =>
    if i < c.copyLen then { req with data := Function.update req.data i (c.record.data.getD i 0) }
    else { req with data := Function.update req.data c.copyLen 0 }
  | .publish => req

/-- 書き込みの次の段。 -/
def WriteStage.next (c : EnqueueCall) : WriteStage → WriteStage
  | .level => .line
  | .line => .file
  | .file => .handler
  | .handler => .copy 0
  | .copy i => if i < c.copyLen then .copy (i + 1) else .publish
  | .publish => .publish

/--
`lmk_ring_enqueue` の一 step。返り値が決まった後（`ret`）は呼び出し側に戻る。

`casFails` は weak CAS の偽の失敗である。失敗した CAS は、偽の失敗でも、
`pos` に今の `head` を書き戻す。
最初の load と `diff > 0` の読み直しは同じ load なので、どちらも `loadHead` に写す。
-/
def enqueueStep (A : CursorArith) (c : EnqueueCall) (casFails : Bool) (m : Shared) :
    EnqueuePc → Option (Shared × EnqueuePc)
  | .loadHead => some (m, .loadSeq m.ring.head)
  | .loadSeq pos =>
    let diff := A.diff (m.ring.slotAt pos).sequence pos
    if diff = 0 then some (m, .cas pos)
    else if diff < 0 then some (m, .ret false)
    else some (m, .loadHead)
  | .cas pos =>
    if m.ring.head = pos ∧ casFails = false then
      some ({ ring := { m.ring with head := A.wrap (pos + 1) }
              hist := { m.hist with claims := m.hist.claims ++ [c] } }, .writing pos .level)
    else some (m, .loadSeq m.ring.head)
  | .writing pos .publish =>
    some ({ m with ring := m.ring.setSequence pos (A.wrap (pos + 1)) }, .ret true)
  | .writing pos stage =>
    some ({ m with ring := m.ring.setReq pos (stage.write c (m.ring.slotAt pos).req) },
      .writing pos (stage.next c))
  | .ret _ => none

/-! ## consumer の操作 -/

/-- 覗き見。次の slot が ready ならその添字、そうでなければ `none`（NULL）。 -/
def lmkRingPeekSlot (A : CursorArith) (r : Ring) : Option Nat :=
  if A.diff (r.slotAt r.tail).sequence (A.wrap (r.tail + 1)) = 0 then some (r.index r.tail)
  else none

/-- `lmk_ring_consume` の一つ目の書き込み。slot を次の周回の producer に渡す。 -/
def consumeStore (A : CursorArith) (r : Ring) : Ring :=
  r.setSequence r.tail (A.wrap (r.tail + r.mask + 1))

/-- `lmk_ring_consume` の二つ目の書き込み。`tail` を進める。 -/
def consumeTail (A : CursorArith) (r : Ring) : Ring := { r with tail := A.wrap (r.tail + 1) }

/-! ## 届いた request -/

/--
request `req` は呼び出し `c` の record を運ぶ。
metadata が一致し、`data` の先頭 `copyLen` byte が一致して、その次が NUL である。
-/
structure Carries (req : LogRequest) (c : EnqueueCall) : Prop where
  logLevel : req.logLevel = c.record.logLevel
  lineNo : req.lineNo = c.record.lineNo
  fileName : req.fileName = c.record.fileName
  handlerName : req.handlerName = c.handlerName
  data : ∀ i, i < c.copyLen → req.data i = c.record.data.getD i 0
  nul : req.data c.copyLen = 0

end Logmoko
