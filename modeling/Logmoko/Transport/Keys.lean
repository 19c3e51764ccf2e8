import Logmoko.Parser.Chunks
import Logmoko.Registry.Applied
import Logmoko.Transport.RoundTrip

/-!
# 送信側と受信側の鍵

送信側の鍵は、設定 file の `psk` の値から、行の切り出し、配列への複写、`lmk_cfg_apply` を経て
導かれる。受信側の鍵は `-p` の引数から導かれる。

配列 `psk` は 256 byte で、値の先頭の 255 byte だけが残る。引数の方は切り詰められない。
二つの鍵がどの hash 関数についても一致するのは、値が 255 byte 以内のとき、かつそのときに限る
（`keys_agree_iff`）。
-/

namespace Logmoko

open StrBuf

/-! ## 受信側 -/

/-- `getopt` が返す option。`invalid` は知らない option である。 -/
inductive ReceiverOpt where
  | psk (v : CStr)
  | host (v : CStr)
  | port (v : CStr)
  | invalid

/-- option の loop。知らない option があれば `none`（終了）である。待ち受ける番地は鍵に関わらない。 -/
def receiverOpts : Option CStr → List ReceiverOpt → Option (Option CStr)
  | psk, [] => some psk
  | _, .psk v :: opts => receiverOpts (some v) opts
  | psk, .host _ :: opts | psk, .port _ :: opts => receiverOpts psk opts
  | _, .invalid :: _ => none

/-- 受信側の鍵。`-p` が無ければ終了する。 -/
def receiverKey (env : Env) (opts : List ReceiverOpt) : Option (List UInt8) :=
  (receiverOpts none opts).bind fun psk => psk.map env.deriveKey

/-- 最後の `-p` の引数が `v` である。 -/
def StartedWith (v : CStr) (opts : List ReceiverOpt) : Prop :=
  .invalid ∉ opts ∧ ∃ before after, opts = before ++ .psk v :: after ∧ ∀ w, .psk w ∉ after

theorem receiverOpts_after {opts : List ReceiverOpt} (hvalid : .invalid ∉ opts)
    (hpsk : ∀ w, .psk w ∉ opts) (psk : Option CStr) : receiverOpts psk opts = some psk := by
  induction opts with
  | nil => rfl
  | cons o opts ih =>
    rw [List.mem_cons, not_or] at hvalid
    have hrest := ih hvalid.2 fun w hw => hpsk w (List.mem_cons_of_mem o hw)
    cases o with
    | psk w => exact absurd List.mem_cons_self (hpsk w)
    | host w | port w => exact hrest
    | invalid => exact absurd rfl hvalid.1

theorem receiverOpts_append {before : List ReceiverOpt} (hvalid : .invalid ∉ before)
    (psk : Option CStr) (opts : List ReceiverOpt) :
    ∃ psk', receiverOpts psk (before ++ opts) = receiverOpts psk' opts := by
  induction before generalizing psk with
  | nil => exact ⟨psk, rfl⟩
  | cons o before ih =>
    rw [List.mem_cons, not_or] at hvalid
    cases o with
    | psk w => exact ih hvalid.2 (some w)
    | host w | port w => exact ih hvalid.2 psk
    | invalid => exact absurd rfl hvalid.1

theorem receiverKey_of_startedWith {v : CStr} {opts : List ReceiverOpt} (h : StartedWith v opts)
    (env : Env) : receiverKey env opts = some (env.deriveKey v) := by
  obtain ⟨hvalid, before, after, rfl, hafter⟩ := h
  rw [List.mem_append, not_or, List.mem_cons, not_or] at hvalid
  obtain ⟨psk', hbefore⟩ := receiverOpts_append hvalid.1 none (.psk v :: after)
  unfold receiverKey
  rw [hbefore, receiverOpts, receiverOpts_after hvalid.2.2 hafter]
  rfl

/-! ## 送信側 -/

/--
`psk = v` の行を含む file。その行は番号 `idx` の handler の section の中にあり、
後の行はその section の `psk` を書き換えない。
-/
structure PskFile (v : CStr) where
  before : List UInt8
  line : List UInt8
  lineEnd : List UInt8
  after : List UInt8
  idx : Nat
  beforeEnds : EndsLine before
  entry : EntryLine (ascii "psk") (fun w => w = v.bytes) line
  fits : line.length ≤ 510
  ends : lineEnd = [10] ∨ lineEnd = [] ∧ after = []
  inHandler : (parsed before (.start .initial)).sec = .handler
  current : (parsed before (.start .initial)).curHandler = some idx
  kept : ((parsed (before ++ line ++ lineEnd ++ after) (.start .initial)).cfg.handlers[idx]?).map
      CfgHandler.psk
    = ((parsed (before ++ line ++ lineEnd) (.start .initial)).cfg.handlers[idx]?).map
      CfgHandler.psk

/-- file の中身。 -/
def PskFile.text {v : CStr} (file : PskFile v) : List UInt8 :=
  file.before ++ file.line ++ file.lineEnd ++ file.after

/-- file が定める設定。 -/
def PskFile.cfg {v : CStr} (file : PskFile v) : Cfg := (parsed file.text (.start .initial)).cfg

/--
番号 `i` の section が socket の handler `name` を定める。
その名前は socket の handler に決まり、後の section はその鍵を書き換えない。
-/
structure Cfg.KeyedBy (cfg : Cfg) (r : Registry) (i : Nat) (name : CStr) : Prop where
  socket : ∃ ch, cfg.handlers[i]? = some ch ∧ ch.type = some .socket ∧ ch.name.str = name
  resolved : resolvedType r cfg.handlers name = some .socket
  last : ∀ ch ∈ cfg.handlers.drop (i + 1), ch.target = some name → ch.type = some .socket →
    ch.psk.str.bytes = []

/-- file を読んで registry `r` に適用した後の、handler `name` の鍵。 -/
def configuredKey (env : Env) (text : List UInt8) (r : Registry) (name : CStr) :
    Option (List UInt8) :=
  (lmkCfgParseFile (some text) .initial).bind fun p => (lmkCfgApply env r p.2).bind fun r' =>
    (lmkSearchLogHandlerByName r' name).bind fun hd =>
      match hd.body with
      | .socket _ psk => psk
      | _ => none

/-- 二つの鍵が一致し、送った datagram がどれも受信側で元の行に戻る。 -/
def KeysAgree (env : Env) (g : Gcm) (text : List UInt8) (r : Registry) (name : CStr)
    (opts : List ReceiverOpt) : Prop :=
  ∃ sent received, configuredKey env text r name = some sent ∧
    receiverKey env opts = some received ∧ sent = received ∧
    ∀ (σ : Type) (servers : List (σ × Option Iv)) (fn : Formatter) (timestamp : CStr)
      (out enc : Nat → UInt8) (req : LogRequest) (rcv : Receiver),
      ∀ x ∈ (socketSlotPsk g sent servers fn timestamp out enc req).2.2,
        (receive g received rcv x.2).stdout
          = rcv.stdout ++ withNewline (formattedLine fn timestamp out req)

variable {v name : CStr} {env : Env} {r : Registry}

theorem word_psk : Word (ascii "psk") := word_of_all rfl

theorem cleanValue_of_eq (hv : Writable v) {w : List UInt8} (hw : w = v.bytes) : CleanValue w :=
  hw ▸ CleanValue.of_writable hv

theorem entryLine_psk_clean {line : List UInt8} (hv : Writable v)
    (hl : EntryLine (ascii "psk") (fun w => w = v.bytes) line) : Clean line :=
  EntryLine.clean word_psk (fun {w} => cleanValue_of_eq hv (w := w)) hl

theorem entryLine_ne_nil {key line : List UInt8} {Value : List UInt8 → Prop}
    (hl : EntryLine key Value line) : line ≠ [] := by
  obtain @⟨a, k, b, c, w, d, -, -, -, -, -, -⟩ := hl
  simp

/-- `psk = v` の行は、読んでいる section の `psk` を `v` の先頭の 255 byte にする。 -/
theorem chunkLine_psk {line lineEnd : List UInt8} {st : ParseState} {i : Nat} {ch : CfgHandler}
    (hv : Writable v) (hl : EntryLine (ascii "psk") (fun w => w = v.bytes) line)
    (hfits : line.length ≤ 510) (hend : lineEnd = [10] ∨ lineEnd = []) (hsec : st.sec = .handler)
    (hcur : st.curHandler = some i) (hch : st.cfg.handlers[i]? = some ch) :
    ((chunkLine (line ++ lineEnd)).step st).cfg
      = st.cfg.setHandler i { ch with psk := .strncpy (by decide) v } := by
  have hspace : ∀ y ∈ lineEnd, isSpace y = true := by
    rcases hend with rfl | rfl
    · exact List.all_eq_true.mp rfl
    · exact nofun
  have hnul : 0 ∉ line ++ lineEnd := by
    rw [List.mem_append]
    refine not_or.mpr ⟨(entryLine_psk_clean hv hl).noNul, ?_⟩
    intro hm
    exact absurd (hspace 0 hm) (by decide)
  have hlen : (line ++ lineEnd ++ [0]).length ≤ cfgLineMax := by
    have hone : lineEnd.length ≤ 1 := by
      rcases hend with rfl | rfl <;> decide
    rw [List.length_append, List.length_append, List.length_singleton]
    show _ ≤ 512
    omega
  obtain ⟨buf', p, q, hline, hkey, hval, hvallen⟩ := parseLine_entryLine st word_psk
    (fun {w} => cleanValue_of_eq hv (w := w)) hl (strAt_zero_append hnul) hspace
  have hstep := parseLine_eq st hlen
  have hset := setKey_eq st (rfl : strAt buf' p = _) (rfl : strAt buf' q = _)
    (Nat.le_trans hvallen (Nat.le_trans hfits (by decide)))
  have hstate := Option.some.inj (hstep.symm.trans (hline.trans hset))
  have hspells : Spells (ascii "psk") (cstr (strAt buf' p)).bytes := by
    rwa [cstr_bytes (zero_notMem_strAt buf' p)]
  have hset' : setHandlerKey ch (cstr (strAt buf' p)) v
      = { ch with psk := .strncpy (by decide) v } := by
    unfold setHandlerKey
    simp only [strcasecmp_of_spells hspells]
    rfl
  have hcfg : entryCfg st (strAt buf' p) (strAt buf' q)
      = st.cfg.setHandler i { ch with psk := .strncpy (by decide) v } := by
    unfold entryCfg
    rw [hsec, hcur]
    dsimp only
    rw [hch, ← hset', ← cstrAt_eq hval, cstrAt_eq_cstr rfl]
  show ((lineOf _).step st).cfg = _
  rw [hstate]
  exact hcfg

/-- 行を一つ読んだところまでの状態。 -/
theorem parsed_before_line (file : PskFile v) (hv : Writable v) :
    parsed (file.before ++ file.line ++ file.lineEnd) (.start .initial)
      = (chunkLine (file.line ++ file.lineEnd)).step (parsed file.before (.start .initial)) := by
  have hnl := (entryLine_psk_clean hv file.entry).noNewline
  have hne := entryLine_ne_nil file.entry
  have hsingle : chunks (file.line ++ file.lineEnd) = [file.line ++ file.lineEnd] := by
    rcases file.ends with h | ⟨h, -⟩
    · rw [h]
      exact chunks_line hnl file.fits
    · rw [h, List.append_nil]
      exact chunks_last hnl file.fits hne
  rw [List.append_assoc, parsed_append file.beforeEnds]
  unfold parsed
  rw [hsingle]
  rfl

/-- file を読むと、section の `psk` は値の先頭の 255 byte になる。 -/
theorem PskFile.psk_eq (file : PskFile v) (hv : Writable v) :
    file.cfg.handlers[file.idx]?.map CfgHandler.psk = some (.strncpy (by decide) v) := by
  have hlt := cursorOk_parsed file.before .initial file.idx file.current
  refine file.kept.trans ?_
  rw [parsed_before_line file hv, chunkLine_psk hv file.entry file.fits
    (file.ends.imp_right And.left) file.inHandler file.current (List.getElem?_eq_getElem hlt)]
  simp [Cfg.setHandler, hlt]

/-- 後の section が書き換えなければ、鍵は番号 `i` の section のものである。 -/
theorem foldl_updatePsk (env : Env) {cs : List CfgHandler} {i : Nat} {ch : CfgHandler}
    (hch : cs[i]? = some ch) (htype : ch.type = some .socket) (hname : ch.name.str = name)
    (hpsk : ch.psk.str.bytes ≠ [])
    (hlast : ∀ c ∈ cs.drop (i + 1), c.target = some name → c.type = some .socket →
      c.psk.str.bytes = []) (psk : Option (List UInt8)) :
    (sectionsFor cs name).foldl (fun psk ch => ch.updatePsk env psk) psk
      = some (env.deriveKey ch.psk.str) := by
  obtain ⟨hlt, hget⟩ := List.getElem?_eq_some_iff.mp hch
  have hsplit : cs = cs.take i ++ ch :: cs.drop (i + 1) := by
    rw [← hget, ← List.drop_eq_getElem_cons hlt, List.take_append_drop]
  have htarget : ch.target = some name := by
    unfold CfgHandler.target
    rw [htype, ← hname]
  have hsections : sectionsFor cs name
      = sectionsFor (cs.take i) name ++ ch :: sectionsFor (cs.drop (i + 1)) name := by
    conv_lhs => rw [hsplit]
    unfold sectionsFor
    rw [List.filter_append, List.filter_cons_of_pos (by simpa using htarget)]
  rw [hsections, List.foldl_append, List.foldl_cons]
  have hset : ∀ psk, ch.updatePsk env psk = some (env.deriveKey ch.psk.str) := fun _ =>
    if_pos ⟨htype, hpsk⟩
  rw [hset]
  refine List.foldlRecOn _ _ (motive := fun psk => psk = some (env.deriveKey ch.psk.str)) rfl ?_
  intro psk hkept c hc
  obtain ⟨hmem, hc⟩ := List.mem_filter.mp hc
  unfold CfgHandler.updatePsk
  rw [if_neg, hkept]
  rintro ⟨hsocket, hne⟩
  exact hne (hlast c hmem (by simpa using hc) hsocket)

/-- 送信側の鍵は、値の先頭の 255 byte から導かれる。 -/
theorem configuredKey_eq (hv : Writable v) (hne : v.bytes ≠ []) (file : PskFile v) (hr : Ready r)
    (hsec : file.cfg.KeyedBy r file.idx name) (env : Env) :
    configuredKey env file.text r name = some (env.deriveKey (v.take 255)) := by
  obtain ⟨ch, hch, htype, hname⟩ := hsec.socket
  have hpsk := file.psk_eq hv
  rw [hch] at hpsk
  have hstr : ch.psk.str = v.take 255 := congrArg CharArray.str (Option.some.inj hpsk)
  have hnonempty : ch.psk.str.bytes ≠ [] := by
    rw [hstr]
    intro h
    rcases List.take_eq_nil_iff.mp h with h | h
    · cases h
    · exact hne h
  obtain ⟨r', hd, happly, hsearch, hbody⟩ := socket_lmkCfgApply env hr hsec.resolved
  have hkey := foldl_updatePsk env hch htype hname hnonempty hsec.last (r.socketOf name).2
  rw [hstr] at hkey
  unfold configuredKey
  rw [lmkCfgParseFile_eq]
  show (lmkCfgApply env r file.cfg).bind _ = _
  rw [happly, Option.bind_some, hsearch, Option.bind_some, hbody]
  exact hkey

/--
**送信側と受信側の鍵が一致するのは、PSK が 255 byte 以内のとき、かつそのときに限る。**
SHA-256 は 32 byte を返す任意の関数とする。
-/
theorem keys_agree_iff (hv : Writable v) (hne : v.bytes ≠ []) (file : PskFile v) (hr : Ready r)
    (hsec : file.cfg.KeyedBy r file.idx name) {opts : List ReceiverOpt}
    (hopts : StartedWith v opts) (g : Gcm) :
    (∀ env : Env, (∀ s, (env.deriveKey s).length = 32) →
      KeysAgree env g file.text r name opts) ↔ v.length ≤ 255 := by
  constructor
  · intro h
    by_contra hlong
    -- 切り詰めた値と元の値を区別する hash 関数をとる
    let env : Env :=
      { inetPton := fun _ => none
        deriveKey := fun s => List.replicate 32 (if s = v then 1 else 0) }
    obtain ⟨sent, received, hsent, hreceived, heq, -⟩ := h env fun s => List.length_replicate
    rw [configuredKey_eq hv hne file hr hsec] at hsent
    rw [receiverKey_of_startedWith hopts] at hreceived
    obtain rfl := Option.some.inj hsent
    obtain rfl := Option.some.inj hreceived
    have hshort : v.take 255 ≠ v := by
      intro he
      have hlen := congrArg CStr.length he
      simp only [CStr.length, CStr.take, List.length_take] at hlen hlong
      omega
    simp [env, hshort] at heq
  · intro hle env _
    refine ⟨_, _, configuredKey_eq hv hne file hr hsec env,
      receiverKey_of_startedWith hopts env, ?_, ?_⟩
    · rw [CStr.take_of_length_le hle]
    · intro σ servers fn timestamp out enc req rcv x hx
      rw [CStr.take_of_length_le hle] at hx
      exact receive_sent hx rcv

/-! ## 一つの file での値 -/

/-- socket の section `net` の見出しと種類。 -/
def netHeader : List UInt8 := ascii "[handler:net]" ++ [10] ++ (ascii "type = socket" ++ [10])

theorem parsed_netHeader :
    parsed netHeader (.start .initial)
      = (chunkLine (ascii "type = socket" ++ [10])).step
          ((chunkLine (ascii "[handler:net]" ++ [10])).step (.start .initial)) := by
  unfold netHeader
  rw [parsed_append (Or.inr ⟨_, rfl⟩), parsed_line (by decide) (by decide),
    parsed_line (by decide) (by decide)]

/-- `psk = v` を書いた socket の section。 -/
def netFile (v : CStr) (hlen : v.length ≤ 500) : PskFile v where
  before := netHeader
  line := ascii "psk" ++ ascii " " ++ 61 :: (ascii " " ++ v.bytes ++ [])
  lineEnd := [10]
  after := []
  idx := 0
  beforeEnds := endsLine_append _ _
  entry := by
    have hspace : Spaces (ascii " ") := by
      intro b hb
      obtain rfl := List.mem_singleton.mp hb
      exact ⟨rfl, by decide⟩
    have hnone : Spaces [] := fun _ hb => (nomatch hb)
    have hvalue : (fun w => w = v.bytes) v.bytes := rfl
    exact .mk hnone (rfl : Spells (ascii "psk") (ascii "psk")) hspace hspace hvalue hnone
  fits := by
    have : (ascii "psk" ++ ascii " ").length = 4 ∧ (ascii " ").length = 1 := by decide
    simp only [CStr.length] at hlen
    simp only [List.length_append, List.length_cons, List.length_nil, this] at *
    omega
  ends := Or.inl rfl
  inHandler := by
    rw [parsed_netHeader]
    decide
  current := by
    rw [parsed_netHeader]
    decide
  kept := by rw [List.append_nil]

/-- 名前 `net`。 -/
def netName : CharArray 64 := ⟨.lit (ascii "net"), by decide⟩

/-- `netFile v` の表す section。 -/
def netSection (v : CStr) : CfgHandler :=
  { CfgHandler.start netName with type := some .socket, psk := .strncpy pos_256 v }

theorem netFile_handlers (hv : Writable v) (hlen : v.length ≤ 500) :
    (netFile v hlen).cfg.handlers = [netSection v] := by
  have hstart : (parsed netHeader (.start .initial)).cfg.handlers
      = [{ CfgHandler.start netName with type := some .socket }] := by
    rw [parsed_netHeader]
    rfl
  have hch : (parsed netHeader (.start .initial)).cfg.handlers[0]?
      = some { CfgHandler.start netName with type := some .socket } := by
    rw [hstart]
    rfl
  have hline := chunkLine_psk hv (netFile v hlen).entry (netFile v hlen).fits (Or.inl rfl)
    (netFile v hlen).inHandler (netFile v hlen).current hch
  show (parsed (_ ++ []) _).cfg.handlers = _
  rw [List.append_nil]
  refine (congrArg (fun st => st.cfg.handlers) (parsed_before_line (netFile v hlen) hv)).trans ?_
  refine (congrArg Cfg.handlers hline).trans ?_
  show (parsed netHeader _).cfg.handlers.set 0 _ = _
  rw [hstart]
  rfl

theorem netFile_keyedBy (hv : Writable v) (hlen : v.length ≤ 500) (config : Config) :
    (netFile v hlen).cfg.KeyedBy (.empty config) 0 netName.str := by
  have hhandlers := netFile_handlers hv hlen
  refine ⟨⟨netSection v, ?_, rfl, rfl⟩, ?_, ?_⟩
  · rw [hhandlers]
    rfl
  · unfold resolvedType
    rw [hhandlers]
    rfl
  · rw [hhandlers]
    exact nofun

/-- 鍵 `secret`。 -/
def secretPsk : CStr := ⟨ascii "secret", by decide⟩

theorem writable_secretPsk : Writable secretPsk := ⟨by decide, by decide⟩

/-- `secret` では、二つの鍵が一致する。 -/
theorem keys_agree_iff_secret :
    (∀ env : Env, (∀ s, (env.deriveKey s).length = 32) →
      KeysAgree env secretGcm (netFile secretPsk (by decide)).text (.empty Cfg.initial.config)
        netName.str [.psk secretPsk]) ↔ secretPsk.length ≤ 255 :=
  keys_agree_iff writable_secretPsk (by decide) _ (ready_empty _)
    (netFile_keyedBy writable_secretPsk (by decide) _) ⟨by simp, [], [], rfl, nofun⟩ secretGcm

/-- 256 byte の PSK。 -/
def longPsk : CStr :=
  ⟨List.replicate 256 97, fun h => absurd (List.eq_of_mem_replicate h) (by decide)⟩

theorem length_longPsk : longPsk.length = 256 := List.length_replicate

theorem writable_longPsk : Writable longPsk := by
  constructor
  · refine stripped_of_forall ?_
    intro b hb
    rw [List.eq_of_mem_replicate hb]
    rfl
  · intro h
    exact absurd (List.eq_of_mem_replicate h) (by decide)

/-- 文字列の長さを 32 個の byte に写す関数。 -/
def lengthHash : Env where
  inetPton _ := none
  deriveKey s := List.replicate 32 (UInt8.ofNat (s.length % 2))

theorem length_longPsk_le : longPsk.length ≤ 500 := by
  rw [length_longPsk]
  decide

/-- 256 byte の PSK では、二つの鍵が異なる関数がある。 -/
theorem longPsk_keys_differ :
    (∀ s, (lengthHash.deriveKey s).length = 32) ∧
      ¬ KeysAgree lengthHash secretGcm (netFile longPsk length_longPsk_le).text
        (.empty Cfg.initial.config) netName.str [.psk longPsk] := by
  refine ⟨fun s => List.length_replicate, ?_⟩
  rintro ⟨sent, received, hsent, hreceived, heq, -⟩
  have hstarted : StartedWith longPsk [.psk longPsk] := ⟨by simp, [], [], rfl, nofun⟩
  have hbytes : longPsk.bytes.length = 256 := length_longPsk
  have hne : longPsk.bytes ≠ [] := by
    intro h
    rw [h] at hbytes
    cases hbytes
  rw [configuredKey_eq writable_longPsk hne _ (ready_empty _)
    (netFile_keyedBy writable_longPsk length_longPsk_le _)] at hsent
  rw [receiverKey_of_startedWith hstarted] at hreceived
  obtain rfl := Option.some.inj hsent
  obtain rfl := Option.some.inj hreceived
  have hfull : longPsk.length = 256 := length_longPsk
  have htake : (longPsk.take 255).length = 255 := by
    show (longPsk.bytes.take 255).length = 255
    rw [List.length_take, hbytes]
    rfl
  unfold lengthHash at heq
  dsimp only at heq
  rw [htake, hfull] at heq
  exact absurd heq (by decide)

end Logmoko
