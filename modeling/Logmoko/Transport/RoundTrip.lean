import Logmoko.Transport.Model
import Mathlib.Data.FinEnum

/-!
# datagram の往復と認証

`openPacket` は datagram を byte 列として開いた結果で、`decrypt_packet` が返すものはこれだけで決まる
（`decryptPacket_eq`）。開けるのは、ある初期値で暗号化した datagram に限る（`openPacket_eq_some_iff`）。
送信側の datagram は、整形した行をそのまま運ぶ。
-/

namespace Logmoko

variable {g : Gcm} {key plain : List UInt8}

/-- datagram の並び。 -/
def packetOf (g : Gcm) (key iv plain : List UInt8) : List UInt8 :=
  iv ++ g.encrypt key iv plain ++ g.tag key iv plain

theorem length_packetOf (g : Gcm) (key plain : List UInt8) {iv : List UInt8}
    (h : iv.length = cryptoIvLen) :
    (packetOf g key iv plain).length = plain.length + cryptoOverhead := by
  simp only [packetOf, List.length_append, g.length_encrypt, g.length_tag, h, cryptoOverhead]
  omega

/-! ## 暗号化 -/

/-- `encrypt_packet` が書くのは、IV・暗号文・tag を続けたものである。 -/
theorem encryptPacket_eq (g : Gcm) (key plain : List UInt8) (iv : Iv) (out : Nat → UInt8) :
    ∃ out', encryptPacket g (some iv) key plain out =
        some (out', (packetOf g key iv.bytes plain).length) ∧
      Buffer.read out' 0 (packetOf g key iv.bytes plain).length =
        packetOf g key iv.bytes plain := by
  have hlen : (packetOf g key iv.bytes plain).length =
      cryptoIvLen + (g.encrypt key iv.bytes plain).length + cryptoTagLen := by
    simp [packetOf, iv.length_eq, g.length_tag, Nat.add_assoc]
  refine ⟨_, by rw [hlen]; rfl, ?_⟩
  set ct := g.encrypt key iv.bytes plain with hct
  set tag := g.tag key iv.bytes plain with htag
  set out₁ := Buffer.write out cryptoIvLen ct
  set out₂ := Buffer.write out₁ (cryptoIvLen + ct.length) tag
  have htagLen : tag.length = cryptoTagLen := g.length_tag _ _ _
  have h₁ : Buffer.read (Buffer.write out₂ 0 iv.bytes) 0 cryptoIvLen = iv.bytes := by
    rw [← iv.length_eq]
    exact Buffer.read_write_self
  have h₂ : Buffer.read (Buffer.write out₂ 0 iv.bytes) cryptoIvLen ct.length = ct := by
    rw [Buffer.read_write_after (by rw [iv.length_eq]; omega), Buffer.read_write_before le_rfl]
    exact Buffer.read_write_self
  have h₃ : Buffer.read (Buffer.write out₂ 0 iv.bytes) (cryptoIvLen + ct.length) cryptoTagLen =
      tag := by
    rw [Buffer.read_write_after (by rw [iv.length_eq]; omega), ← htagLen]
    exact Buffer.read_write_self
  rw [hlen, Buffer.read_add, Buffer.read_add, Nat.zero_add, Nat.zero_add, h₁, h₂, h₃]
  rfl

/-! ## 復号 -/

/-- datagram を開く。短すぎるか、tag が合わなければ `none`。 -/
def openPacket (g : Gcm) (key packet : List UInt8) : Option (List UInt8) :=
  if packet.length < cryptoOverhead then none
  else
    let iv := packet.take cryptoIvLen
    let ciphertext := (packet.drop cryptoIvLen).take (packet.length - cryptoOverhead)
    if g.verify key iv ciphertext (packet.drop (packet.length - cryptoTagLen)) then
      some (g.decrypt key iv ciphertext)
    else none

/-- `decrypt_packet` の返す長さと書いた内容は、受け取った byte 列だけで決まる。 -/
theorem decryptPacket_eq (key : List UInt8) (input out : Nat → UInt8) (inLen : Nat) :
    (decryptPacket g key input inLen out).2 =
        (openPacket g key (Buffer.read input 0 inLen)).map List.length ∧
      ∀ p, openPacket g key (Buffer.read input 0 inLen) = some p →
        Buffer.read (decryptPacket g key input inLen out).1 0 p.length = p := by
  unfold decryptPacket openPacket
  rw [Buffer.length_read]
  by_cases hshort : inLen < cryptoOverhead
  · rw [if_pos hshort, if_pos hshort]
    exact ⟨rfl, fun p h => nomatch h⟩
  · have hov : cryptoOverhead = cryptoIvLen + cryptoTagLen := rfl
    have hiv : (Buffer.read input 0 inLen).take cryptoIvLen = Buffer.read input 0 cryptoIvLen :=
      Buffer.take_read (by omega)
    have hct : ((Buffer.read input 0 inLen).drop cryptoIvLen).take (inLen - cryptoOverhead) =
        Buffer.read input cryptoIvLen (inLen - cryptoOverhead) := by
      rw [Buffer.drop_read (by omega), Buffer.take_read (by omega), Nat.zero_add]
    have htag : (Buffer.read input 0 inLen).drop (inLen - cryptoTagLen) =
        Buffer.read input (inLen - cryptoTagLen) cryptoTagLen := by
      rw [Buffer.drop_read (by omega), Nat.zero_add, Nat.sub_sub_self (by omega)]
    rw [if_neg hshort, if_neg hshort, hiv, hct, htag]
    dsimp only
    split
    · refine ⟨rfl, ?_⟩
      rintro p h
      obtain rfl := Option.some.inj h
      exact Buffer.read_write_self
    · exact ⟨rfl, fun p h => nomatch h⟩

/-- 開けるのは、返した平文をその鍵と初期値で暗号化した datagram に限る。 -/
theorem openPacket_eq_some_iff {packet p : List UInt8} :
    openPacket g key packet = some p ↔
      cryptoOverhead ≤ packet.length ∧
        ∃ iv : List UInt8, iv.length = cryptoIvLen ∧ packet = packetOf g key iv p := by
  have hov : cryptoOverhead = cryptoIvLen + cryptoTagLen := rfl
  constructor
  · intro h
    unfold openPacket at h
    split at h
    · cases h
    · next hlen =>
      dsimp only at h
      split at h
      · next hv =>
        have htag := (g.verify_iff _ _ _ _).mp hv
        obtain rfl := Option.some.inj h
        refine ⟨by omega, packet.take cryptoIvLen, by simp; omega, ?_⟩
        rw [packetOf, ← htag, g.encrypt_decrypt, List.append_assoc]
        -- 三つに切り分けた列をつなぐと元に戻る
        have hdrop : packet.drop (packet.length - cryptoTagLen) =
            (packet.drop cryptoIvLen).drop (packet.length - cryptoOverhead) := by
          rw [List.drop_drop]
          congr 1
          omega
        rw [hdrop, List.take_append_drop, List.take_append_drop]
      · cases h
  · rintro ⟨-, iv, hiv, rfl⟩
    have hlen := length_packetOf g key p hiv
    have htake : (packetOf g key iv p).take cryptoIvLen = iv := by
      rw [packetOf, List.append_assoc, ← hiv, List.take_left]
    have hct : ((packetOf g key iv p).drop cryptoIvLen).take p.length = g.encrypt key iv p := by
      rw [packetOf, List.append_assoc, ← hiv, List.drop_left, ← g.length_encrypt key iv p,
        List.take_left]
    have htag : (packetOf g key iv p).drop (p.length + cryptoIvLen) = g.tag key iv p := by
      rw [packetOf, List.drop_left']
      rw [List.length_append, hiv, g.length_encrypt]
      omega
    rw [openPacket, hlen, if_neg (by omega)]
    dsimp only
    rw [htake, Nat.add_sub_cancel, hct, show p.length + cryptoOverhead - cryptoTagLen =
      p.length + cryptoIvLen by omega, htag, if_pos ((g.verify_encrypt _ _ _ _).mpr rfl),
      g.decrypt_encrypt]

/-! ## 受信側の出力 -/

/-- 行の末尾に改行が無ければ足す。空の行には足さない。 -/
def withNewline (p : List UInt8) : List UInt8 :=
  p ++ if p ≠ [] ∧ p.getLast? ≠ some 10 then [10] else []

/-- 一つの datagram について受信側が出す byte 列。 -/
def printedFor (g : Gcm) (key datagram : List UInt8) : List UInt8 :=
  match openPacket g key (datagram.take maxPacketSize) with
  | some p => withNewline p
  | none => []

/-- 出した byte 列の最後の byte。 -/
theorem getLast?_read {buf : Nat → UInt8} {p : List UInt8} (h : Buffer.read buf 0 p.length = p)
    (hne : p ≠ []) : p.getLast? = some (buf (p.length - 1)) := by
  have hpos : 0 < p.length := List.length_pos_iff.mpr hne
  have hget := Buffer.getElem?_read buf 0 (Nat.sub_lt hpos Nat.one_pos)
  rw [h, Nat.zero_add] at hget
  rw [List.getLast?_eq_getElem?, hget]

theorem receive_stdout (r : Receiver) (datagram : List UInt8) :
    (receive g key r datagram).stdout = r.stdout ++ printedFor g key datagram := by
  have hread : Buffer.read (Buffer.write r.buf 0 (datagram.take maxPacketSize)) 0
      (min datagram.length maxPacketSize) = datagram.take maxPacketSize := by
    rw [Nat.min_comm, ← List.length_take]
    exact Buffer.read_write_self
  obtain ⟨hlen, hplain⟩ := decryptPacket_eq (g := g) key
    (Buffer.write r.buf 0 (datagram.take maxPacketSize)) r.plain
    (min datagram.length maxPacketSize)
  rw [hread] at hlen hplain
  unfold receive printedFor
  dsimp only
  cases ho : openPacket g key (datagram.take maxPacketSize) with
  | none =>
    rw [ho] at hlen
    split
    · simp
    · next heq =>
      rw [heq] at hlen
      cases hlen
  | some p =>
    have hp := hplain p ho
    rw [ho] at hlen
    split
    · next heq =>
      rw [heq] at hlen
      cases hlen
    · next plain plainLen heq =>
      rw [heq] at hlen hp
      obtain rfl : plainLen = p.length := Option.some.inj hlen
      dsimp only at hp ⊢
      rw [hp, withNewline, List.append_assoc]
      congr 2
      by_cases hne : p = []
      · simp [hne]
      · have hlast := getLast?_read hp hne
        have hpos := List.length_pos_iff.mpr hne
        simp [hne, hlast, hpos]

/-- 受信の loop の出力は、datagram ごとの出力をつないだものである。 -/
theorem receiveAll_stdout (r : Receiver) (datagrams : List (List UInt8)) :
    (receiveAll g key r datagrams).stdout = r.stdout ++ datagrams.flatMap (printedFor g key) := by
  induction datagrams generalizing r with
  | nil => simp [receiveAll]
  | cons d ds ih =>
    show (receiveAll g key (receive g key r d) ds).stdout = _
    rw [ih, receive_stdout, List.flatMap_cons, List.append_assoc]

/-! ## 送信側の datagram -/

/-- server ごとの datagram。`RAND_bytes` に失敗した server には送られない。 -/
def packetsFor {σ : Type} (g : Gcm) (key plain : List UInt8) (servers : List (σ × Option Iv)) :
    List (σ × List UInt8) :=
  servers.filterMap fun x => x.2.map fun iv => (x.1, packetOf g key iv.bytes plain)

theorem foldl_sendTo {σ : Type} (servers : List (σ × Option Iv))
    (r : (Nat → UInt8) × List (σ × List UInt8)) :
    (servers.foldl (sendTo g key plain) r).2 = r.2 ++ packetsFor g key plain servers := by
  induction servers generalizing r with
  | nil => simp [packetsFor]
  | cons x servers ih =>
    obtain ⟨server, rand⟩ := x
    rw [List.foldl_cons, ih]
    cases rand with
    | none => rfl
    | some iv =>
      obtain ⟨out', heq, hread⟩ := encryptPacket_eq g key plain iv r.1
      simp only [sendTo, heq, hread]
      simp [packetsFor]

theorem map_fst_packetsFor {σ : Type} (servers : List (σ × Option Iv)) :
    (packetsFor g key plain servers).map Prod.fst =
      (servers.filter fun x => x.2.isSome).map Prod.fst := by
  induction servers with
  | nil => rfl
  | cons x servers ih =>
    obtain ⟨server, rand⟩ := x
    cases rand with
    | none => simpa [packetsFor] using ih
    | some iv => simpa [packetsFor] using ih

theorem exists_iv_of_mem {σ : Type} {servers : List (σ × Option Iv)} {x : σ × List UInt8}
    (h : x ∈ packetsFor g key plain servers) :
    ∃ iv : Iv, x.2 = packetOf g key iv.bytes plain := by
  obtain ⟨⟨server, rand⟩, -, hx⟩ := List.mem_filterMap.mp h
  obtain ⟨iv, -, rfl⟩ := Option.map_eq_some_iff.mp hx
  exact ⟨iv, rfl⟩

/-- 整形した行。 -/
def formattedLine (fn : Formatter) (timestamp : CStr) (out : Nat → UInt8) (req : LogRequest) :
    List UInt8 :=
  let p := formatLine fn timestamp out 0 outBufSize req
  Buffer.read p.2 0 p.1.toNat

theorem length_formattedLine_lt (fn : Formatter) (timestamp : CStr) (out : Nat → UInt8)
    (req : LogRequest) : (formattedLine fn timestamp out req).length < outBufSize := by
  have hpos : 0 < outBufSize := by decide
  have hlt := formatLine_fst_lt fn timestamp out 0 req hpos
  rw [formattedLine, Buffer.length_read]
  omega

theorem socketSlotPsk_sent {σ : Type} (servers : List (σ × Option Iv)) (fn : Formatter)
    (timestamp : CStr) (out enc : Nat → UInt8) (req : LogRequest) :
    (socketSlotPsk g key servers fn timestamp out enc req).2.2 =
      if formattedLine fn timestamp out req = [] then []
      else packetsFor g key (formattedLine fn timestamp out req) servers := by
  have hlen : (formattedLine fn timestamp out req).length =
      (formatLine fn timestamp out 0 outBufSize req).1.toNat := Buffer.length_read
  unfold socketSlotPsk
  dsimp only
  by_cases hn : (formatLine fn timestamp out 0 outBufSize req).1 > 0
  · have hne : formattedLine fn timestamp out req ≠ [] := by
      intro heq
      rw [heq, List.length_nil] at hlen
      omega
    rw [if_pos hn, if_neg hne]
    exact foldl_sendTo servers (enc, [])
  · have heq : formattedLine fn timestamp out req = [] := by
      rw [← List.length_eq_zero_iff, hlen]
      omega
    rw [if_neg hn, if_pos heq]

/-- 送られた datagram は両側の配列に収まり、同じ鍵で元の行に戻る。 -/
theorem openPacket_sent {σ : Type} {servers : List (σ × Option Iv)} {fn : Formatter}
    {timestamp : CStr} {out enc : Nat → UInt8} {req : LogRequest} {x : σ × List UInt8}
    (hx : x ∈ (socketSlotPsk g key servers fn timestamp out enc req).2.2) :
    x.2.length ≤ encBufSize ∧ x.2.length ≤ maxPacketSize ∧
      openPacket g key x.2 = some (formattedLine fn timestamp out req) := by
  rw [socketSlotPsk_sent] at hx
  split at hx
  · cases hx
  · obtain ⟨iv, hiv⟩ := exists_iv_of_mem hx
    have hlen := length_packetOf g key (formattedLine fn timestamp out req) iv.length_eq
    have hlt := length_formattedLine_lt fn timestamp out req
    have henc : encBufSize = outBufSize + cryptoOverhead := rfl
    have hmax : encBufSize ≤ maxPacketSize := by decide
    have hle : x.2.length ≤ encBufSize := by
      rw [hiv, hlen, henc]
      exact Nat.add_le_add_right hlt.le _
    refine ⟨hle, hle.trans hmax, openPacket_eq_some_iff.mpr ⟨?_, iv.bytes, iv.length_eq, hiv⟩⟩
    rw [hiv, hlen]
    exact Nat.le_add_left _ _

/-- 受信側は、送られた行を出す。 -/
theorem receive_sent {σ : Type} {servers : List (σ × Option Iv)} {fn : Formatter}
    {timestamp : CStr} {out enc : Nat → UInt8} {req : LogRequest} {x : σ × List UInt8}
    (hx : x ∈ (socketSlotPsk g key servers fn timestamp out enc req).2.2) (r : Receiver) :
    (receive g key r x.2).stdout
      = r.stdout ++ withNewline (formattedLine fn timestamp out req) := by
  obtain ⟨-, hmax, hopen⟩ := openPacket_sent hx
  rw [receive_stdout, printedFor, List.take_of_length_le hmax, hopen]

/--
暗号化した送受信。どの PSK・初期値・書式関数・request についても、送られた datagram は送信側と
受信側の配列に収まり、同じ PSK から導いた鍵の `decrypt_packet` は整形した行をそのまま返し、
受信側はその行を（改行が無ければ足して）出す。

逆に、`decrypt_packet` が成功するのは、28 byte 以上の列が、返した平文をその鍵と先頭の初期値で
暗号化した `IV ++ 暗号文 ++ tag` であるときに限る。それ以外の datagram については何も出さず、
loop は次の datagram に進む。
-/
theorem encrypted_transport (g : Gcm) (deriveKey : CStr → List UInt8) (psk : CStr) :
    (∀ (σ : Type) (servers : List (σ × Option Iv)) (fn : Formatter) (timestamp : CStr)
      (out enc : Nat → UInt8) (req : LogRequest),
      let line := formattedLine fn timestamp out req
      let sent := (socketSlotPsk g (deriveKey psk) servers fn timestamp out enc req).2.2
      (line ≠ [] → sent.map Prod.fst =
        (servers.filter fun x => x.2.isSome).map Prod.fst) ∧
      ∀ x ∈ sent, x.2.length ≤ encBufSize ∧ x.2.length ≤ maxPacketSize ∧
        (∀ input plain : Nat → UInt8, Buffer.read input 0 x.2.length = x.2 →
          (decryptPacket g (deriveKey psk) input x.2.length plain).2 = some line.length ∧
          Buffer.read (decryptPacket g (deriveKey psk) input x.2.length plain).1 0 line.length =
            line) ∧
        ∀ r, (receive g (deriveKey psk) r x.2).stdout = r.stdout ++ withNewline line) ∧
    (∀ (input plain : Nat → UInt8) (inLen n : Nat),
      (decryptPacket g (deriveKey psk) input inLen plain).2 = some n →
      let p := Buffer.read (decryptPacket g (deriveKey psk) input inLen plain).1 0 n
      cryptoOverhead ≤ inLen ∧ Buffer.read input 0 inLen =
        packetOf g (deriveKey psk) (Buffer.read input 0 cryptoIvLen) p) ∧
    ∀ (r : Receiver) (datagrams : List (List UInt8)),
      (receiveAll g (deriveKey psk) r datagrams).stdout =
        r.stdout ++ datagrams.flatMap (printedFor g (deriveKey psk)) ∧
      ∀ d, (∀ iv p : List UInt8, iv.length = cryptoIvLen →
          d.take maxPacketSize ≠ packetOf g (deriveKey psk) iv p) →
        printedFor g (deriveKey psk) d = [] := by
  refine ⟨?_, ?_, ?_⟩
  · intro σ servers fn timestamp out enc req line sent
    have hsent : sent = if line = [] then [] else packetsFor g (deriveKey psk) line servers :=
      socketSlotPsk_sent servers fn timestamp out enc req
    constructor
    · intro hne
      rw [hsent, if_neg hne]
      exact map_fst_packetsFor servers
    · intro x hx
      obtain ⟨hle, hmax, hopen⟩ := openPacket_sent hx
      refine ⟨hle, hmax, ?_, receive_sent hx⟩
      intro input plain hread
      obtain ⟨h₁, h₂⟩ := decryptPacket_eq (g := g) (deriveKey psk) input plain x.2.length
      rw [hread, hopen] at h₁ h₂
      exact ⟨h₁, h₂ line rfl⟩
  · intro input plain inLen n h p
    obtain ⟨h₁, h₂⟩ := decryptPacket_eq (g := g) (deriveKey psk) input plain inLen
    rw [h₁] at h
    obtain ⟨q, hq, rfl⟩ := Option.map_eq_some_iff.mp h
    have hpq : p = q := h₂ q hq
    obtain ⟨hlen, iv, hiv, hpacket⟩ := openPacket_eq_some_iff.mp hq
    rw [Buffer.length_read] at hlen
    refine ⟨hlen, ?_⟩
    have hfirst : Buffer.read input 0 cryptoIvLen = iv := by
      rw [← Buffer.take_read (le_trans (by decide) hlen), hpacket, packetOf, List.append_assoc,
        ← hiv, List.take_left]
    rw [hfirst, hpq]
    exact hpacket
  · intro r datagrams
    refine ⟨receiveAll_stdout r datagrams, ?_⟩
    intro d hd
    unfold printedFor
    cases ho : openPacket g (deriveKey psk) (d.take maxPacketSize) with
    | none => rfl
    | some p =>
      obtain ⟨-, iv, hiv, heq⟩ := openPacket_eq_some_iff.mp ho
      exact absurd heq (hd iv p hiv)

/-! ## 一つの入力での値 -/

/-- 鍵の列との排他的論理和。鍵の列が尽きた後はそのままである。 -/
def mask : List UInt8 → List UInt8 → List UInt8
  | _, [] => []
  | [], y :: ys => y :: mask [] ys
  | k :: ks, y :: ys => (k ^^^ y) :: mask ks ys

theorem length_mask (ks ys : List UInt8) : (mask ks ys).length = ys.length := by
  fun_induction mask ks ys with
  | case1 => rfl
  | case2 y ys ih => simp [ih]
  | case3 k ks y ys ih => simp [ih]

theorem mask_mask (ks ys : List UInt8) : mask ks (mask ks ys) = ys := by
  fun_induction mask ks ys with
  | case1 ks => cases ks <;> rfl
  | case2 y ys ih => simp [mask, ih]
  | case3 k ks y ys ih =>
    show (k ^^^ (k ^^^ y)) :: mask ks (mask ks ys) = y :: ys
    rw [ih, ← UInt8.xor_assoc, UInt8.xor_self, UInt8.zero_xor]

/--
SHA-256 で `secret` から導いた鍵と、初期値 `0, 1, …, 11` の下で、行 `x` と改行について
AES-256-GCM と同じ値を取る暗号。
-/
def secretGcm : Gcm where
  encrypt _ _ := mask [169, 214, 164, 139, 105, 195, 101, 129, 193, 84, 126, 159, 6, 92, 69, 61]
  tag _ _ plain :=
    if plain = [120, 10] then
      [235, 107, 200, 14, 123, 230, 211, 61, 36, 179, 196, 84, 245, 88, 70, 154]
    else List.replicate 16 0
  decrypt _ _ := mask [169, 214, 164, 139, 105, 195, 101, 129, 193, 84, 126, 159, 6, 92, 69, 61]
  verify _ _ ciphertext t :=
    t = if mask [169, 214, 164, 139, 105, 195, 101, 129, 193, 84, 126, 159, 6, 92, 69, 61]
        ciphertext = [120, 10] then
      [235, 107, 200, 14, 123, 230, 211, 61, 36, 179, 196, 84, 245, 88, 70, 154]
    else List.replicate 16 0
  length_encrypt _ _ _ := length_mask _ _
  length_tag _ _ plain := by split <;> rfl
  decrypt_encrypt _ _ _ := mask_mask _ _
  verify_encrypt _ _ plain t := by rw [mask_mask, decide_eq_true_iff]

/-- `secret` の SHA-256。 -/
def secretKey : List UInt8 :=
  [43, 184, 13, 83, 123, 29, 163, 227, 139, 211, 3, 97, 170, 133, 86, 134, 189, 224, 234, 205, 113,
    98, 254, 246, 162, 95, 233, 123, 245, 39, 162, 91]

/-- 行 `x` と改行を送った datagram を、受信側がその行として出す。 -/
theorem encrypted_transport_secret :
    (socketSlotPsk secretGcm secretKey [((), some ⟨[0, 1, 2, 3, 4, 5, 6, 7, 8, 9, 10, 11], rfl⟩)]
        (.ofText fun _ => [120, 10]) .empty (fun _ => 0) (fun _ => 0) emptyRequest).2.2 =
      [((), [0, 1, 2, 3, 4, 5, 6, 7, 8, 9, 10, 11, 209, 220, 235, 107, 200, 14, 123, 230, 211, 61,
        36, 179, 196, 84, 245, 88, 70, 154])] ∧
    (receive secretGcm secretKey ⟨fun _ => 0, fun _ => 0, []⟩
      [0, 1, 2, 3, 4, 5, 6, 7, 8, 9, 10, 11, 209, 220, 235, 107, 200, 14, 123, 230, 211, 61,
        36, 179, 196, 84, 245, 88, 70, 154]).stdout = [120, 10] := by
  have hsent : (socketSlotPsk secretGcm secretKey
      [((), some ⟨[0, 1, 2, 3, 4, 5, 6, 7, 8, 9, 10, 11], rfl⟩)]
      (.ofText fun _ => [120, 10]) .empty (fun _ => 0) (fun _ => 0) emptyRequest).2.2 =
      [((), [0, 1, 2, 3, 4, 5, 6, 7, 8, 9, 10, 11, 209, 220, 235, 107, 200, 14, 123, 230, 211, 61,
        36, 179, 196, 84, 245, 88, 70, 154])] := by decide +kernel
  have hline : formattedLine (.ofText fun _ => [120, 10]) .empty (fun _ => 0) emptyRequest =
      [120, 10] := by decide +kernel
  refine ⟨hsent, ?_⟩
  have h := ((encrypted_transport secretGcm (fun _ => secretKey) ⟨ascii "secret", by decide⟩).1
    Unit _ _ _ _ _ _).2 _ (hsent ▸ List.mem_singleton_self _)
  have hstdout := h.2.2.2 ⟨fun _ => 0, fun _ => 0, []⟩
  rw [hline] at hstdout
  exact hstdout

end Logmoko
