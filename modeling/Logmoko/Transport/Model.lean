import Logmoko.Format.Text
import Logmoko.Lib.Aead

/-!
# 暗号化した datagram と受信側

`logmoko_encryption.c` の二つの関数、socket handler の consumer が暗号を使うときの一件の処理、
受信側の program の loop を写す。

AES-256-GCM と SHA-256 は外の library の関数なので、`Aead.Scheme` と関数 `deriveKey` を引数に取る。
`RAND_bytes` の失敗は `none` で、成功すれば 12 byte の初期値 `Iv` である。

datagram の並びは `[IV][暗号文][tag]` である。暗号文と tag を書いてから、先頭に IV を写す。
-/

namespace Logmoko

def cryptoIvLen : Nat := 12

def cryptoTagLen : Nat := 16

def cryptoOverhead : Nat := cryptoIvLen + cryptoTagLen

/-- socket handler の配列 `enc` の大きさ。 -/
def encBufSize : Nat := logMsgMaxSize + 512 + cryptoOverhead

/-- 受信側の配列 `buf` と `plain` の大きさ。 -/
def maxPacketSize : Nat := 4096

/-- AES-256-GCM。 -/
abbrev Gcm := Aead.Scheme cryptoTagLen (List UInt8) (List UInt8) UInt8

/-- `RAND_bytes` が作る初期値。 -/
structure Iv where
  bytes : List UInt8
  length_eq : bytes.length = cryptoIvLen

/-! ## 暗号化と復号 -/

/--
`encrypt_packet`。書いた後の `out` と `*out_len` を返す。`RAND_bytes` に失敗すると `none`（-1）。
-/
def encryptPacket (g : Gcm) (rand : Option Iv) (key plain : List UInt8) (out : Nat → UInt8) :
    Option ((Nat → UInt8) × Nat) :=
  rand.map fun iv =>
    let ciphertext := g.encrypt key iv.bytes plain
    let out := Buffer.write out cryptoIvLen ciphertext
    let out := Buffer.write out (cryptoIvLen + ciphertext.length) (g.tag key iv.bytes plain)
    (Buffer.write out 0 iv.bytes, cryptoIvLen + ciphertext.length + cryptoTagLen)

/--
`decrypt_packet`。`out` は tag の検査の前に書かれるので、失敗しても変わりうる。
二つ目の成分は、成功したときの `*out_len` である。
-/
def decryptPacket (g : Gcm) (key : List UInt8) (input : Nat → UInt8) (inLen : Nat)
    (out : Nat → UInt8) : (Nat → UInt8) × Option Nat :=
  if inLen < cryptoOverhead then (out, none)
  else
    let iv := Buffer.read input 0 cryptoIvLen
    let ciphertext := Buffer.read input cryptoIvLen (inLen - cryptoOverhead)
    let tag := Buffer.read input (inLen - cryptoTagLen) cryptoTagLen
    let plain := g.decrypt key iv ciphertext
    (Buffer.write out 0 plain, if g.verify key iv ciphertext tag then some plain.length else none)

/-! ## 送信側 -/

/-- 一つの server に送る。暗号化に失敗した server には送らない。 -/
def sendTo {σ : Type} (g : Gcm) (key plain : List UInt8)
    (r : (Nat → UInt8) × List (σ × List UInt8)) (x : σ × Option Iv) :
    (Nat → UInt8) × List (σ × List UInt8) :=
  match encryptPacket g x.2 key plain r.1 with
  | some (enc, encLen) => (enc, r.2 ++ [(x.1, Buffer.read enc 0 encLen)])
  | none => r

/--
socket の consumer が暗号を使って一件を送る。`servers` は server と、その番の `RAND_bytes` の
結果である。server ごとに、同じ配列 `enc` に暗号化し直す。
-/
def socketSlotPsk {σ : Type} (g : Gcm) (key : List UInt8) (servers : List (σ × Option Iv))
    (fn : Formatter) (timestamp : CStr) (out enc : Nat → UInt8) (req : LogRequest) :
    (Nat → UInt8) × (Nat → UInt8) × List (σ × List UInt8) :=
  let p := formatLine fn timestamp out 0 outBufSize req
  if p.1 > 0 then
    (p.2, servers.foldl (sendTo g key (Buffer.read p.2 0 p.1.toNat)) (enc, []))
  else (p.2, enc, [])

/-! ## 受信側 -/

/-- 受信側の program の二つの配列と、標準出力に書いた byte 列。 -/
structure Receiver where
  buf : Nat → UInt8
  plain : Nat → UInt8
  stdout : List UInt8

/-- `recvfrom` が datagram を一つ受け取った後の、loop の一回り。配列に入らない分は捨てられる。 -/
def receive (g : Gcm) (key : List UInt8) (r : Receiver) (datagram : List UInt8) : Receiver :=
  let n := min datagram.length maxPacketSize
  let buf := Buffer.write r.buf 0 (datagram.take maxPacketSize)
  match decryptPacket g key buf n r.plain with
  | (plain, none) => { r with buf, plain }
  | (plain, some plainLen) =>
    let printed := Buffer.read plain 0 plainLen
    { buf, plain
      stdout := r.stdout ++ printed ++
        if plainLen > 0 ∧ plain (plainLen - 1) ≠ 10 then [10] else [] }

/-- 受信の loop。 -/
def receiveAll (g : Gcm) (key : List UInt8) : Receiver → List (List UInt8) → Receiver :=
  List.foldl (receive g key)

end Logmoko
