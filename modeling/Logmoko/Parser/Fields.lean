import Logmoko.Parser.Bounds

/-!
# key の書き込みの範囲

key の行が構造体に書くとき、途中のどの時点でも不変条件が保たれ、
書き終えた構造体は列の上の関数が定める値を表す。

listener と参照する handler の名前は、個数を増やしてから中身を書く。
途中の要素は `memset` で 0 になったままなので、そこでも文字列は配列の中で終わっている。

* `mapsHandler_setHandlerKey` — handler の section の key
* `mapsHandler_addListener` — listener
-/

namespace Logmoko.Raw

open StrBuf Cells Traced

variable {m : Mem} {i p : Nat} {I : Mem → Prop}

/-! ## 読み出し -/

theorem wp_lineStr {Q : CStr → Mem → Prop} (hp : Ends m.line.toList p)
    (hQ : Q (cstrAt m.line.toList p) m) : wp I (lineStr p) Q m := by
  refine wp_read ?_ hQ
  rw [readStr_eq_some hp]
  rfl

theorem wp_loadLine {Q : UInt8 → Mem → Prop} (hp : p < cfgLineMax)
    (hQ : Q (charAt m.line.toList p) m) : wp I (loadLine p) Q m := by
  refine wp_read ?_ hQ
  rw [charAt_toList hp]
  exact Vector.getElem?_eq_getElem hp

/-! ## handler の key -/

theorem mapsHandler_ite {b : Prop} {_ : Decidable b} {x y : Exec Mem Unit}
    {f g : Logmoko.CfgHandler → Logmoko.CfgHandler} (hx : MapsHandler x i f m)
    (hy : MapsHandler y i g m) :
    MapsHandler (if b then x else y) i (fun ch => if b then f ch else g ch) m := by
  split
  · exact hx
  · exact hy

theorem mapsHandler_setHandlerType (val : CStr) :
    MapsHandler (setHandlerType i val) i
      (fun ch => { ch with type := parseHandlerType ch.type val }) m := by
  have hwrite : ∀ t : HandlerType, MapsHandler
      (writeHandler i fun h => some { h with type := typeCode t }) i
      (fun ch => { ch with type := some t }) m := by
    intro t
    refine mapsHandler_write (fun h => { h with type := typeCode t }) ?_ ?_
    · intro h hh
      exact { hh with }
    · intro h
      unfold CfgHandler.abs
      simp only [typeOf_typeCode]
  unfold setHandlerType parseHandlerType
  repeat' split
  · exact hwrite .console
  · exact hwrite .file
  · exact hwrite .socket
  · exact hwrite .syslog
  · exact mapsHandler_pure

/-- 個数を一つ増やし、その要素を `l` にした section。 -/
def CfgHandler.pushListener (h : CfgHandler) (hroom : h.nrListeners < 16) (l : CfgListener) :
    CfgHandler :=
  { h with
    nrListeners := h.nrListeners + 1
    listeners := h.listeners.set h.nrListeners l hroom }

theorem CfgHandler.Ok.pushListener {h : CfgHandler} (hok : h.Ok) (hroom : h.nrListeners < 16)
    {l : CfgListener} (hl : LastZero l.host) : (h.pushListener hroom l).Ok :=
  { hok with listeners := (hok.listeners.succ hroom).set hroom (Nat.lt_succ_self _) hl }

theorem CfgHandler.length_abs {h : CfgHandler} (hle : h.nrListeners ≤ 16) :
    h.abs.listeners.length = h.nrListeners :=
  (List.length_map _).trans (length_used hle _)

theorem CfgHandler.abs_pushListener (h : CfgHandler) (hroom : h.nrListeners < 16)
    (l : CfgListener) : (h.pushListener hroom l).abs = h.abs.addListener l.abs := by
  refine Logmoko.CfgHandler.ext rfl rfl rfl rfl ?_ rfl rfl rfl rfl rfl rfl
  show (used (h.listeners.set h.nrListeners l hroom) (h.nrListeners + 1)).map _
    = if h.abs.listeners.length < 16 then _ else _
  rw [used_push, List.map_append, CfgHandler.length_abs hroom.le, if_pos hroom]
  rfl

/-- 足した listener の一つの書き込み。 -/
theorem wp_writePushed {h : CfgHandler} {f : CfgListener → Option CfgListener}
    {l l' : CfgListener} {Q : Unit → Mem → Prop} (hm : Inv m) (hi : i < 32)
    (hused : i < m.cfg.nrHandlers) (hok : h.Ok) (hroom : h.nrListeners < 16)
    (hl : LastZero l.host) (hf : f l = some l') (hl' : LastZero l'.host)
    (hQ : Q () (m.setHandler i hi (h.pushListener hroom l'))) :
    wp Inv (writeListener i h.nrListeners f) Q (m.setHandler i hi (h.pushListener hroom l)) := by
  have hget : (h.pushListener hroom l).listeners[h.nrListeners] = l := Vector.getElem_set_self _
  refine wp_rewriteHandler hm hi hused (hok.pushListener hroom hl) (hok.pushListener hroom hl')
    ?_ hQ
  rw [modifyAt_eq_some hroom (by rw [hget]; exact hf)]
  simp [CfgHandler.pushListener]

/-- host を写した後の要素。 -/
theorem exists_host {n : Nat} {l : CfgListener} (hl : LastZero l.host) (str : CStr)
    (hn : n ≤ str.length) {k : Nat} (hk : k = if 64 ≤ n then 63 else n) (hk64 : k < 64) :
    ∃ w, strncpy l.host str.bytes k = some w ∧ LastZero w ∧ LastZero (w.set k 0 hk64) ∧
      absText pos_64 (w.set k 0 hk64) = .strncpy pos_64 (str.take n) := by
  obtain ⟨w, hw, hlist⟩ := strncpy_eq_some hk64.le l.host str.bytes
  have hlast := hl.strncpy hk64 hlist
  refine ⟨w, hw, hlast, hlast.set hk64, CharArray.ext_str ?_⟩
  have hkn : k = min 63 n := by
    rw [hk]
    split <;> omega
  have htext : text (w.set k 0 hk64) = (str.bytes.take n).take 63 := by
    rw [text_strncpy_set str.noNul hk64 (by unfold CStr.length at hn; omega) hlist, List.take_take,
      hkn]
  show CStr.mk (text (w.set k 0 hk64)) _ = CStr.mk ((str.bytes.take n).take 63) _
  simp only [htext]

/-- 値の途中から読む文字列は、値の残りである。 -/
theorem cstrAt_suffix {buf : List UInt8} {val n : Nat} (hval : Ends buf val)
    (hn : n + 1 ≤ (cstrAt buf val).length) :
    Ends buf (val + n + 1) ∧ cstrAt buf (val + n + 1) = (cstrAt buf val).drop (n + 1) := by
  have hle : n + 1 ≤ (strAt buf val).length := hn
  rw [Nat.add_assoc]
  refine ⟨hval.add hle, cstrAt_eq ?_⟩
  rw [strAt_add hle]
  rfl

/-- **listener を足す途中でも、足した要素の host は配列の中で終わっている。** -/
theorem mapsHandler_addListener {val : Nat} (hval : Ends m.line.toList val) :
    MapsHandler (addListener i val (cstrAt m.line.toList val)) i
      (fun ch => parseListener ch (cstrAt m.line.toList val)) m := by
  intro hi hused hm
  have hok : m.cfg.handlers[i].Ok := hm.handlers.each i hi
  have hsuffix := fun n => cstrAt_suffix (n := n) hval
  generalize cstrAt m.line.toList val = str at hsuffix ⊢
  unfold addListener
  refine wp_bind (wp_read (a := m.cfg.handlers[i].nrListeners) ?_ ?_)
  · dsimp only
    rw [Vector.getElem?_eq_getElem hi]
    rfl
  generalize hh : m.cfg.handlers[i] = h at hok ⊢
  refine wp_ite ?_ ?_
  · intro hroom
    by_cases hcolon : 58 ∈ str.bytes
    · obtain ⟨host, port, hsplit, hchr⟩ := exists_strrchr hcolon
      rw [hchr]
      dsimp only
      have hlen : host.length + 1 ≤ str.length := by
        unfold CStr.length
        rw [hsplit, List.length_append, List.length_cons]
        omega
      obtain ⟨hends, hport⟩ := hsuffix host.length hlen
      generalize hk : (if 64 ≤ host.length then 63 else host.length) = k
      have hk64 : k < 64 := by
        rw [← hk]
        split <;> omega
      obtain ⟨w, hw, hlast, hlast', htext⟩ := exists_host (hok.listeners.each h.nrListeners hroom)
        str (Nat.le_of_succ_le hlen) hk.symm hk64
      -- 個数を増やしてから、host を写し、NUL を書き、port を書く
      have hzero := hok.listeners.each h.nrListeners hroom
      have hfirst : ({ h with nrListeners := h.nrListeners + 1 } : CfgHandler)
          = h.pushListener hroom h.listeners[h.nrListeners] := by
        simp [CfgHandler.pushListener]
      refine wp_bind (wp_writeHandler hm hi hused (by rw [hh, hfirst])
        (hok.pushListener hroom hzero) ?_)
      refine wp_bind (wp_writePushed hm hi hused hok hroom hzero (by rw [hw]; rfl) hlast ?_)
      refine wp_bind (wp_writePushed hm hi hused hok hroom hlast
        (by rw [store_eq_some hk64]; rfl) hlast' ?_)
      refine wp_bind (wp_lineStr hends ?_)
      refine wp_writePushed hm hi hused hok hroom hlast' rfl hlast' ?_
      refine ⟨_, rfl, hok.pushListener hroom hlast', ?_⟩
      rw [CfgHandler.abs_pushListener]
      unfold parseListener
      rw [hchr]
      dsimp only [CfgListener.abs]
      rw [htext, Mem.line_setHandler, hport]
    · rw [strrchr_eq_none hcolon]
      refine wp_pure ⟨h, ?_, hok, (parseListener_eq_self_iff.mpr (Or.inl hcolon)).symm⟩
      rw [← hh, m.setHandler_self hi]
  · intro hfull
    refine wp_pure ⟨h, ?_, hok, ?_⟩
    · rw [← hh, m.setHandler_self hi]
    · refine (parseListener_eq_self_iff.mpr (Or.inr ?_)).symm
      rw [CfgHandler.length_abs hok.listeners.count]
      exact Nat.not_lt.mp hfull

/-- **handler の section の key。** -/
theorem mapsHandler_setHandlerKey (key : CStr) {val : Nat} (hval : Ends m.line.toList val) :
    MapsHandler (setHandlerKey i key val) i
      (fun ch => Logmoko.setHandlerKey ch key (cstrAt m.line.toList val)) m := by
  have hlistener := mapsHandler_addListener (i := i) hval
  intro hi hused hm
  unfold setHandlerKey
  refine wp_bind (wp_lineStr hval ?_)
  generalize cstrAt m.line.toList val = str at hlistener ⊢
  refine (?_ : MapsHandler _ i (fun ch => Logmoko.setHandlerKey ch key str) m) hi hused hm
  unfold Logmoko.setHandlerKey
  refine mapsHandler_ite (mapsHandler_setHandlerType str) (mapsHandler_ite ?level
    (mapsHandler_ite ?filename (mapsHandler_ite ?ident (mapsHandler_ite ?facility
      (mapsHandler_ite ?format (mapsHandler_ite ?maxFileSize (mapsHandler_ite ?maxBackupFiles
        (mapsHandler_ite ?psk (mapsHandler_ite hlistener mapsHandler_pure)))))))))
  case level =>
    exact mapsHandler_write (fun h => { h with level := lmkCfgParseLevel str })
      (fun _ hh => { hh with }) fun _ => rfl
  case maxFileSize =>
    exact mapsHandler_write (fun h => { h with maxFileSize := atol str })
      (fun _ hh => { hh with }) fun _ => rfl
  case maxBackupFiles =>
    exact mapsHandler_write (fun h => { h with maxBackupFiles := atoi str })
      (fun _ hh => { hh with }) fun _ => rfl
  case filename =>
    refine mapsHandler_strncpy pos_256 CfgHandler.filename
      (fun h filename => { h with filename }) (fun _ hh => hh.filename)
      (fun _ _ hh hw => { hh with filename := hw }) ?_
    intro h w hw
    unfold CfgHandler.abs
    simp only [hw]
  case ident =>
    refine mapsHandler_strncpy pos_64 CfgHandler.ident
      (fun h ident => { h with ident }) (fun _ hh => hh.ident)
      (fun _ _ hh hw => { hh with ident := hw }) ?_
    intro h w hw
    unfold CfgHandler.abs
    simp only [hw]
  case facility =>
    refine mapsHandler_strncpy pos_32 CfgHandler.facility
      (fun h facility => { h with facility }) (fun _ hh => hh.facility)
      (fun _ _ hh hw => { hh with facility := hw }) ?_
    intro h w hw
    unfold CfgHandler.abs
    simp only [hw]
  case format =>
    refine mapsHandler_strncpy pos_32 CfgHandler.format
      (fun h format => { h with format }) (fun _ hh => hh.format)
      (fun _ _ hh hw => { hh with format := hw }) ?_
    intro h w hw
    unfold CfgHandler.abs
    simp only [hw]
  case psk =>
    refine mapsHandler_strncpy pos_256 CfgHandler.psk
      (fun h psk => { h with psk }) (fun _ hh => hh.psk)
      (fun _ _ hh hw => { hh with psk := hw }) ?_
    intro h w hw
    unfold CfgHandler.abs
    simp only [hw]

/-! ## global の key -/

/-- global の section の key は、配列に触れない。 -/
theorem wp_setGlobalKey (key val : CStr) (hm : Inv m) :
    wp Inv (setGlobalKey key val)
      (fun _ m' => m'.line = m.line ∧ Inv m' ∧ m'.cfg.nrHandlers = m.cfg.nrHandlers ∧
        m'.cfg.nrLoggers = m.cfg.nrLoggers ∧
        m'.cfg.abs = Logmoko.setGlobalKey m.cfg.abs key val) m := by
  have hset : ∀ log ring : Int, Inv { m with cfg := { m.cfg with
      logBufferSize := log, ringBufferSize := ring } } := fun _ _ => { hm with }
  unfold setGlobalKey Logmoko.setGlobalKey
  refine wp_ite ?_ ?_
  · intro hlog
    rw [if_pos hlog]
    exact wp_write rfl (hset _ _) ⟨rfl, hset _ _, rfl, rfl, rfl⟩
  · intro hlog
    rw [if_neg hlog]
    refine wp_ite ?_ ?_
    · intro hring
      rw [if_pos hring]
      exact wp_write rfl (hset _ _) ⟨rfl, hset _ _, rfl, rfl, rfl⟩
    · intro hring
      rw [if_neg hring]
      exact wp_pure ⟨rfl, hm, rfl, rfl, rfl⟩

end Logmoko.Raw
