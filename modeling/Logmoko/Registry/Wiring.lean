import Logmoko.Registry.Applied

/-!
# 設定による配線

空の registry に設定を適用したとき、logger の section に書かれた名前が、その名前の section の
handler に行き着くかを調べる。handler は一つ目の pass で作られ、二つ目の pass で名前から探される。

console の section だけは、section の名前ではなく `"console"` で登録される。従って

* 別の名前の console の section は、書かれた名前では見つからない
* `"console"` という名前は、console の section のすべてに共有される

主結果 `lmkCfgApply_wired_iff` は、書かれた通りに配線されるための必要十分条件である。
-/

namespace Logmoko

open Keyed

variable {env : Env} {r : Registry} {cfg : Cfg} {ch c : CfgHandler} {cs : List CfgHandler}
  {name : CStr}

/-! ## 書かれた通りの配線 -/

/-- section が定める level。未設定なら handler の初期値である。 -/
def CfgHandler.ownLevel (ch : CfgHandler) : Int :=
  if ValidLogLevel ch.level then ch.level else logLevelTrace

/-- section が定める書式。未設定なら既定の書式である。 -/
def CfgHandler.ownFormat (ch : CfgHandler) : Option FormatFn :=
  if ch.format.str.bytes = [] then none else lmkGetFormatFn (some ch.format.str)

/-- section が定める回転の大きさ。 -/
def CfgHandler.ownMaxFileSize (ch : CfgHandler) : Int :=
  if ch.maxFileSize > 0 then ch.maxFileSize else defaultMaxFileSize

/-- section が定める回転の個数。 -/
def CfgHandler.ownMaxBackupFiles (ch : CfgHandler) : Int :=
  if ch.maxBackupFiles > 0 then ch.maxBackupFiles else defaultMaxBackupFiles

/-- handler は section の名前で登録され、section の設定を持つ。 -/
structure CarriesSection (ch : CfgHandler) (h : LogHandler) : Prop where
  name : h.name = ch.name.str
  type : some h.body.type = ch.type
  level : h.logLevel = ch.ownLevel
  format : h.formatFn = ch.ownFormat
  rotation : ch.type = some .file →
    h.body = .file ch.filename.str ch.ownMaxFileSize ch.ownMaxBackupFiles

/-- section の名前は重複せず、handler の section は種類を持ち、file の section は file 名を持つ。 -/
structure Cfg.WellFormed (cfg : Cfg) : Prop where
  handlerNames : (cfg.handlers.map fun ch => ch.name.str).Nodup
  types : ∀ ch ∈ cfg.handlers, ch.type ≠ none
  filenames : ∀ ch ∈ cfg.handlers, ch.type = some .file → ch.filename.str.bytes ≠ []
  loggerNames : (cfg.loggers.map fun cl => cl.name.str).Nodup

/-- handler の section の名前。 -/
def Cfg.sectionNames (cfg : Cfg) : List CStr := cfg.handlers.map fun ch => ch.name.str

/--
どの logger の section の logger も、書かれた名前のうち section のあるものの handler に、
書かれた順に重複なく付いていて、それらの handler は自分の section の設定を持つ。
-/
def Cfg.Wired (cfg : Cfg) (r : Registry) : Prop :=
  ∀ cl ∈ cfg.loggers, ∃ lg, lmkSearchLoggerByName r cl.name.str = some lg ∧
    ∃ hs : List LogHandler, lg.handlerRefList = hs.map LogHandler.addr ∧
      hs.map LogHandler.name
        = ((cl.handlerNames.map CharArray.str).filter (· ∈ cfg.sectionNames)).eraseDups ∧
      ∀ h ∈ hs, h ∈ r.handlers ∧ ∃ ch ∈ cfg.handlers, CarriesSection ch h

/-- 名前 `name` は、同じ名前の section があるときに限り、その section の handler に行き着く。 -/
structure Cfg.Reaches (cfg : Cfg) (r : Registry) (name : CStr) : Prop where
  found_iff : (r.handlerAddr? name).isSome ↔ name ∈ cfg.sectionNames
  carries : ∀ h, lmkSearchLogHandlerByName r name = some h →
    ∃ ch ∈ cfg.handlers, CarriesSection ch h

/-- 見つかる名前の列を検索して得た handler の名前は、その列である。 -/
theorem map_name_filterMap {l : List CStr} (h : ∀ n ∈ l, (r.handlerAddr? n).isSome) :
    (l.filterMap (lmkSearchLogHandlerByName r)).map LogHandler.name = l := by
  rw [List.map_filterMap]
  refine (List.filterMap_congr ?_).trans List.filterMap_some
  intro n hn
  obtain ⟨a, ha⟩ := Option.isSome_iff_exists.mp (h n hn)
  obtain ⟨hd, -, hs, -, hname⟩ := handlerAddr?_eq_some ha
  rw [hs, Option.map_some, hname]

/-- 参照の列が見つかった handler の列なら、配線の正しさは名前ごとの正しさである。 -/
theorem wired_iff_reaches (ha : AddrInv r)
    (hrefs : ∀ cl ∈ cfg.loggers, ∃ lg, lmkSearchLoggerByName r cl.name.str = some lg ∧
      lg.handlerRefList = (foundNames r cl.handlerNames).filterMap r.handlerAddr?) :
    cfg.Wired r ↔ ∀ cl ∈ cfg.loggers, ∀ n ∈ cl.handlerNames, cfg.Reaches r n.str := by
  constructor
  · intro hw cl hcl n hn
    obtain ⟨lg, hlg, hs, hlist, hnames, hall⟩ := hw cl hcl
    obtain ⟨lg', hlg', hlist'⟩ := hrefs cl hcl
    obtain rfl := Option.some.inj (hlg.symm.trans hlg')
    -- 名前で見つかる handler は参照の列にあり、従って `hs` にある
    have hmem : ∀ h, lmkSearchLogHandlerByName r n.str = some h → h ∈ hs := by
      intro h hh
      have haddr : r.handlerAddr? n.str = some h.addr := by simp [Registry.handlerAddr?, hh]
      have hin : h.addr ∈ lg.handlerRefList := by
        rw [hlist']
        refine List.mem_filterMap.mpr ⟨n.str, ?_, haddr⟩
        unfold foundNames
        rw [List.mem_eraseDups, List.mem_filter]
        exact ⟨List.mem_map_of_mem hn, by simp [haddr]⟩
      rw [hlist] at hin
      obtain ⟨h', hh', he⟩ := List.mem_map.mp hin
      rwa [← eq_of_key_eq ha.handlerAddrs (hall h' hh').1 (List.mem_of_find?_eq_some hh) he]
    have hname : ∀ m, m ∈ hs.map LogHandler.name ↔
        m ∈ cl.handlerNames.map CharArray.str ∧ m ∈ cfg.sectionNames := by
      intro m
      rw [hnames, List.mem_eraseDups, List.mem_filter, decide_eq_true_eq]
    constructor
    · constructor
      · intro hfound
        obtain ⟨a, haddr⟩ := Option.isSome_iff_exists.mp hfound
        obtain ⟨h, -, hh, -, he⟩ := handlerAddr?_eq_some haddr
        exact ((hname n.str).mp (List.mem_map.mpr ⟨h, hmem h hh, he⟩)).2
      · intro hsec
        obtain ⟨h, hh, he⟩ := List.mem_map.mp
          ((hname n.str).mpr ⟨List.mem_map_of_mem hn, hsec⟩)
        unfold Registry.handlerAddr? lmkSearchLogHandlerByName
        rw [Option.isSome_map, List.find?_isSome]
        exact ⟨h, (hall h hh).1, by simpa using he⟩
    · exact fun h hh => (hall h (hmem h hh)).2
  · intro hreach cl hcl
    obtain ⟨lg, hlg, hlist⟩ := hrefs cl hcl
    have hfound : ∀ n ∈ foundNames r cl.handlerNames,
        (r.handlerAddr? n).isSome ∧ ∃ m ∈ cl.handlerNames, m.str = n := by
      intro n hn
      unfold foundNames at hn
      rw [List.mem_eraseDups, List.mem_filter] at hn
      exact ⟨hn.2, List.mem_map.mp hn.1⟩
    have hsame : foundNames r cl.handlerNames
        = ((cl.handlerNames.map CharArray.str).filter (· ∈ cfg.sectionNames)).eraseDups := by
      unfold foundNames
      refine congrArg List.eraseDups (List.filter_congr ?_)
      intro n hn
      obtain ⟨m, hm, rfl⟩ := List.mem_map.mp hn
      rw [Bool.eq_iff_iff, decide_eq_true_eq]
      exact (hreach cl hcl m hm).found_iff
    refine ⟨lg, hlg, (foundNames r cl.handlerNames).filterMap (lmkSearchLogHandlerByName r), ?_, ?_,
      ?_⟩
    · rw [hlist, List.map_filterMap]
      rfl
    · rw [map_name_filterMap fun n hn => (hfound n hn).1, hsame]
    · intro h hh
      obtain ⟨n, hn, hs⟩ := List.mem_filterMap.mp hh
      obtain ⟨-, m, hm, rfl⟩ := hfound n hn
      exact ⟨List.mem_of_find?_eq_some hs, (hreach cl hcl m hm).carries h hs⟩

/-! ## 名前の条件 -/

/-- `"console"` で登録される section。console の section と、その名前の section である。 -/
def Cfg.consoleSections (cfg : Cfg) : List CfgHandler :=
  cfg.handlers.filter fun ch => ch.type = some .console ∨ ch.name.str = consoleName

/-- 最後に設定される level。どの section も設定しなければ handler の初期値である。 -/
def lastLevel (cs : List CfgHandler) : Int :=
  ((cs.filter fun ch => ValidLogLevel ch.level).getLast?.map CfgHandler.level).getD logLevelTrace

/-- 最後に設定される書式。どの section も設定しなければ既定の書式である。 -/
def lastFormat (cs : List CfgHandler) : Option FormatFn :=
  (cs.filter fun ch => ch.format.str.bytes ≠ []).getLast?.bind fun ch =>
    lmkGetFormatFn (some ch.format.str)

/--
名前 `name` の行き先が section の言葉通りであるための条件。

* `"console"` のほかの名前は、console の section の名前ではない
* `"console"` で登録される section があれば、その名前の section もあり、
  種類は最初のもの、level と書式は最後に設定されるものに等しい
-/
structure Cfg.NameKept (cfg : Cfg) (name : CStr) : Prop where
  other : name ≠ consoleName → ∀ ch ∈ cfg.handlers, ch.name.str = name → ch.type ≠ some .console
  console : name = consoleName → cfg.consoleSections ≠ [] →
    ∃ ch ∈ cfg.handlers, ch.name.str = consoleName ∧
      (∀ first ∈ cfg.consoleSections.head?, first.type = ch.type) ∧
      lastLevel cfg.consoleSections = ch.ownLevel ∧
      lastFormat cfg.consoleSections = ch.ownFormat

theorem foldl_updateLevel (cs : List CfgHandler) :
    cs.foldl (fun level ch => ch.updateLevel level) logLevelTrace = lastLevel cs := by
  induction cs using List.reverseRecOn with
  | nil => rfl
  | append_singleton cs ch ih =>
    rw [List.foldl_append, ih, List.foldl_cons, List.foldl_nil]
    unfold lastLevel CfgHandler.updateLevel
    rw [List.filter_append]
    by_cases hv : ValidLogLevel ch.level
    · simp [hv]
    · simp [hv]

theorem foldl_updateFormat (cs : List CfgHandler) :
    cs.foldl (fun fn ch => ch.updateFormat fn) none = lastFormat cs := by
  induction cs using List.reverseRecOn with
  | nil => rfl
  | append_singleton cs ch ih =>
    rw [List.foldl_append, ih, List.foldl_cons, List.foldl_nil]
    unfold lastFormat CfgHandler.updateFormat
    rw [List.filter_append]
    by_cases he : ch.format.str.bytes = []
    · simp [he]
    · simp [he]

theorem type_foldl_updateBody (cs : List CfgHandler) (body : HandlerBody) :
    (cs.foldl (fun body ch => ch.updateBody env body) body).type = body.type := by
  induction cs generalizing body with
  | nil => rfl
  | cons ch cs ih => rw [List.foldl_cons, ih, type_updateBody]

theorem type_newBody (h : ch.type ≠ none) : some ch.newBody.type = ch.type := by
  unfold CfgHandler.newBody
  cases ht : ch.type with
  | none => exact absurd ht h
  | some type => cases type <;> rfl

/-- file の section が作って上書きした、種類ごとの部分。 -/
theorem updateBody_newBody_file (ht : ch.type = some .file) :
    ch.updateBody env ch.newBody
      = .file ch.filename.str ch.ownMaxFileSize ch.ownMaxBackupFiles := by
  rw [updateBody_eq]
  unfold CfgHandler.newBody CfgHandler.updateRotation CfgHandler.ownMaxFileSize
    CfgHandler.ownMaxBackupFiles
  simp only [ht, true_and]
  by_cases hr : ch.maxFileSize > 0 ∨ ch.maxBackupFiles > 0
  · simp only [if_pos hr]
  · have h1 : ¬ ch.maxFileSize > 0 := fun h => hr (Or.inl h)
    have h2 : ¬ ch.maxBackupFiles > 0 := fun h => hr (Or.inr h)
    simp only [if_neg hr, if_neg h1, if_neg h2]

theorem updateBody_console (ht : ch.type = some .console) (body : HandlerBody) :
    ch.updateBody env body = body := by
  simp [CfgHandler.updateBody, ht]

/-- 整った設定では、登録される名前は console の section のほかでは section の名前である。 -/
theorem Cfg.WellFormed.target_iff (hwf : cfg.WellFormed) (hch : ch ∈ cfg.handlers) :
    ch.target = some name ↔
      (ch.type = some .console ∧ consoleName = name) ∨
        (ch.type ≠ some .console ∧ ch.name.str = name) := by
  have htype := hwf.types ch hch
  have hfile := hwf.filenames ch hch
  unfold CfgHandler.target
  cases ht : ch.type with
  | none => exact absurd ht htype
  | some type => cases type <;> simp [ht, hfile]

theorem Cfg.WellFormed.eq_of_name (hwf : cfg.WellFormed) (hch : ch ∈ cfg.handlers)
    (hc : c ∈ cfg.handlers) (he : ch.name.str = c.name.str) : ch = c :=
  eq_of_key_eq hwf.handlerNames hch hc he

theorem Cfg.WellFormed.sectionsFor_console (hwf : cfg.WellFormed) :
    sectionsFor cfg.handlers consoleName = cfg.consoleSections := by
  unfold sectionsFor Cfg.consoleSections
  refine List.filter_congr ?_
  intro ch hch
  rw [Bool.eq_iff_iff, decide_eq_true_eq, decide_eq_true_eq, hwf.target_iff hch]
  by_cases ht : ch.type = some .console
  · simp [ht]
  · simp [ht]

/-- console の section でない section の名前では、その section だけが登録される。 -/
theorem Cfg.WellFormed.sectionsFor_other (hwf : cfg.WellFormed) (hch : ch ∈ cfg.handlers)
    (hne : ch.name.str ≠ consoleName) (ht : ch.type ≠ some .console) :
    sectionsFor cfg.handlers ch.name.str = [ch] := by
  unfold sectionsFor
  refine filter_eq_singleton hwf.handlerNames hch ?_
  intro c hc
  rw [decide_eq_true_eq, hwf.target_iff hc]
  constructor
  · rintro (⟨-, he⟩ | ⟨-, he⟩)
    · exact absurd he.symm hne
    · exact hwf.eq_of_name hc hch he
  · rintro rfl
    exact Or.inr ⟨ht, rfl⟩

/-- file の section が最初に登録されるなら、残りの console の section は回転を変えない。 -/
theorem body_of_console_file (hwf : cfg.WellFormed) (hch : ch ∈ cfg.handlers)
    (hname : ch.name.str = consoleName) (ht : ch.type = some .file)
    (hfirst : cfg.consoleSections.head? = some c) (hc : c.type = ch.type) :
    cfg.consoleSections.foldl (fun body ch => ch.updateBody env body) c.newBody
      = .file ch.filename.str ch.ownMaxFileSize ch.ownMaxBackupFiles := by
  obtain ⟨rest, hrest⟩ := List.head?_eq_some_iff.mp hfirst
  have hmemc : c ∈ cfg.consoleSections := List.mem_of_head? hfirst
  obtain ⟨hcmem, hcase⟩ := List.mem_filter.mp hmemc
  have hcname : c.name.str = consoleName := by
    rcases of_decide_eq_true hcase with hcon | hn
    · simp [hc, ht] at hcon
    · exact hn
  obtain rfl := hwf.eq_of_name hcmem hch (hcname.trans hname.symm)
  have hnd : (cfg.consoleSections.map fun ch => ch.name.str).Nodup :=
    hwf.handlerNames.sublist (List.filter_sublist.map _)
  rw [hrest, List.map_cons, List.nodup_cons] at hnd
  -- 名前 `"console"` の section は先頭の一つだけなので、残りは console の section である
  have hconsole : ∀ d ∈ rest, d.type = some .console := by
    intro d hd
    have hdmem : d ∈ cfg.consoleSections := hrest ▸ List.mem_cons_of_mem c hd
    rcases of_decide_eq_true (List.mem_filter.mp hdmem).2 with hcon | hn
    · exact hcon
    · exact absurd (List.mem_map.mpr ⟨d, hd, hn.trans hcname.symm⟩) hnd.1
  have hnoop : ∀ (l : List CfgHandler) (body : HandlerBody), (∀ d ∈ l, d.type = some .console) →
      l.foldl (fun body ch => ch.updateBody env body) body = body := by
    intro l body hl
    induction l with
    | nil => rfl
    | cons d l ih =>
      rw [List.foldl_cons, updateBody_console (hl d List.mem_cons_self)]
      exact ih fun e he => hl e (List.mem_cons_of_mem d he)
  rw [hrest, List.foldl_cons, hnoop rest _ hconsole]
  exact updateBody_newBody_file ht

/-! ## 名前の行き先 -/

section

variable (hset : ∀ name, (lmkSearchLogHandlerByName r name).map LogHandler.settings
  = settingsFor env cfg.handlers name)

include hset

theorem found_iff_sectionsFor (name : CStr) :
    (r.handlerAddr? name).isSome ↔ sectionsFor cfg.handlers name ≠ [] := by
  have hsome := congrArg Option.isSome (hset name)
  unfold settingsFor at hsome
  rw [Option.isSome_map, Option.isSome_map] at hsome
  unfold Registry.handlerAddr?
  rw [Option.isSome_map, hsome, List.isSome_head?]

theorem settings_of_search {h : LogHandler} (hs : lmkSearchLogHandlerByName r name = some h) :
    ∃ first ∈ (sectionsFor cfg.handlers name).head?, h.name = name ∧
      h.body = (sectionsFor cfg.handlers name).foldl (fun body ch => ch.updateBody env body)
        first.newBody ∧
      h.logLevel = lastLevel (sectionsFor cfg.handlers name) ∧
      h.formatFn = lastFormat (sectionsFor cfg.handlers name) := by
  have hmap := hset name
  rw [hs, Option.map_some] at hmap
  obtain ⟨first, hfirst, he⟩ := Option.map_eq_some_iff.mp hmap.symm
  simp only [LogHandler.settings, Prod.mk.injEq] at he
  obtain ⟨hname, hbody, hlevel, hformat⟩ := he
  refine ⟨first, hfirst, hname.symm, hbody.symm, ?_, ?_⟩
  · rw [← hlevel, foldl_updateLevel]
  · rw [← hformat, foldl_updateFormat]

/-- `"console"` のほかの名前。 -/
theorem reaches_iff_other (hwf : cfg.WellFormed) (hne : name ≠ consoleName) :
    cfg.Reaches r name ↔
      ∀ ch ∈ cfg.handlers, ch.name.str = name → ch.type ≠ some .console := by
  constructor
  · rintro hreach ch hch rfl ht
    -- 同じ名前で登録されるのは console でない section だけで、名前の重複から矛盾する
    have hsome := hreach.found_iff.mpr (List.mem_map_of_mem hch)
    obtain ⟨c, hc⟩ := List.exists_mem_of_ne_nil _ ((found_iff_sectionsFor hset _).mp hsome)
    obtain ⟨hmem, htarget⟩ := List.mem_filter.mp hc
    rcases (hwf.target_iff hmem).mp (of_decide_eq_true htarget) with ⟨-, he⟩ | ⟨hct, he⟩
    · exact hne he.symm
    · exact hct (hwf.eq_of_name hmem hch he ▸ ht)
  · intro hother
    constructor
    · rw [found_iff_sectionsFor hset]
      constructor
      · intro hne'
        obtain ⟨c, hc⟩ := List.exists_mem_of_ne_nil _ hne'
        obtain ⟨hmem, htarget⟩ := List.mem_filter.mp hc
        rcases (hwf.target_iff hmem).mp (of_decide_eq_true htarget) with ⟨-, he⟩ | ⟨-, he⟩
        · exact absurd he.symm hne
        · exact List.mem_map.mpr ⟨c, hmem, he⟩
      · intro hsec
        obtain ⟨ch, hch, rfl⟩ := List.mem_map.mp hsec
        rw [hwf.sectionsFor_other hch hne (hother ch hch rfl)]
        simp
    · intro h hs
      obtain ⟨first, hfirst, hname, hbody, hlevel, hformat⟩ := settings_of_search hset hs
      obtain ⟨hmem, htarget⟩ := List.mem_filter.mp (List.mem_of_head? hfirst)
      rcases (hwf.target_iff hmem).mp (of_decide_eq_true htarget) with ⟨-, he⟩ | ⟨ht, rfl⟩
      · exact absurd he.symm hne
      · rw [hwf.sectionsFor_other hmem hne ht] at hbody hlevel hformat
        refine ⟨first, hmem, hname, ?_, ?_, ?_, fun htf => ?_⟩
        · rw [hbody, type_foldl_updateBody]
          exact type_newBody (hwf.types first hmem)
        · rw [hlevel, ← foldl_updateLevel]
          rfl
        · rw [hformat, ← foldl_updateFormat]
          rfl
        · rw [hbody]
          exact updateBody_newBody_file htf

/-- 名前 `"console"`。 -/
theorem reaches_iff_console (hwf : cfg.WellFormed) :
    cfg.Reaches r consoleName ↔ (cfg.consoleSections ≠ [] →
      ∃ ch ∈ cfg.handlers, ch.name.str = consoleName ∧
        (∀ first ∈ cfg.consoleSections.head?, first.type = ch.type) ∧
        lastLevel cfg.consoleSections = ch.ownLevel ∧
        lastFormat cfg.consoleSections = ch.ownFormat) := by
  have hfound := found_iff_sectionsFor hset consoleName
  rw [hwf.sectionsFor_console] at hfound
  constructor
  · intro hreach hne
    obtain ⟨a, ha⟩ := Option.isSome_iff_exists.mp (hfound.mpr hne)
    obtain ⟨h, -, hs, -, -⟩ := handlerAddr?_eq_some ha
    obtain ⟨ch, hch, hcar⟩ := hreach.carries h hs
    obtain ⟨first, hfirst, hname, hbody, hlevel, hformat⟩ := settings_of_search hset hs
    rw [hwf.sectionsFor_console] at hfirst hbody hlevel hformat
    refine ⟨ch, hch, hcar.name.symm.trans hname, fun d hd => ?_, ?_, ?_⟩
    · obtain rfl := Option.some.inj (hfirst.symm.trans hd)
      have hmem := (List.mem_filter.mp (List.mem_of_head? hfirst)).1
      rw [← type_newBody (hwf.types first hmem), ← hcar.type, hbody, type_foldl_updateBody]
    · exact hlevel.symm.trans hcar.level
    · exact hformat.symm.trans hcar.format
  · -- 逆向きでは、条件が与える section を証人にする
    intro hkept
    constructor
    · rw [hfound]
      constructor
      · intro hne
        obtain ⟨ch, hch, hname, -⟩ := hkept hne
        exact List.mem_map.mpr ⟨ch, hch, hname⟩
      · intro hsec
        obtain ⟨ch, hch, hname⟩ := List.mem_map.mp hsec
        refine List.ne_nil_of_mem (a := ch) (List.mem_filter.mpr ⟨hch, ?_⟩)
        simp [hname]
    · intro h hs
      obtain ⟨first, hfirst, hname, hbody, hlevel, hformat⟩ := settings_of_search hset hs
      rw [hwf.sectionsFor_console] at hfirst hbody hlevel hformat
      have hmemf := List.mem_of_head? hfirst
      obtain ⟨ch, hch, hchname, htype, hlast, hlastf⟩ := hkept (List.ne_nil_of_mem hmemf)
      refine ⟨ch, hch, hname.trans hchname.symm, ?_, hlevel.trans hlast, hformat.trans hlastf,
        fun htf => ?_⟩
      · rw [hbody, type_foldl_updateBody,
          type_newBody (hwf.types first (List.mem_filter.mp hmemf).1)]
        exact htype first hfirst
      · rw [hbody]
        exact body_of_console_file hwf hch hchname htf hfirst (htype first hfirst)

theorem reaches_iff_nameKept (hwf : cfg.WellFormed) :
    cfg.Reaches r name ↔ cfg.NameKept name := by
  by_cases hne : name = consoleName
  · subst hne
    rw [reaches_iff_console hset hwf]
    exact ⟨fun h => ⟨fun hne => absurd rfl hne, fun _ => h⟩, fun h => h.console rfl⟩
  · rw [reaches_iff_other hset hwf hne]
    exact ⟨fun h => ⟨fun _ => h, fun he => absurd he hne⟩, fun h => h.other hne⟩

end

/-! ## 適用の結果 -/

instance (cfg : Cfg) : Decidable cfg.WellFormed :=
  decidable_of_iff
    ((cfg.handlers.map fun ch => ch.name.str).Nodup ∧ (∀ ch ∈ cfg.handlers, ch.type ≠ none) ∧
      (∀ ch ∈ cfg.handlers, ch.type = some .file → ch.filename.str.bytes ≠ []) ∧
      (cfg.loggers.map fun cl => cl.name.str).Nodup)
    ⟨fun ⟨h₁, h₂, h₃, h₄⟩ => ⟨h₁, h₂, h₃, h₄⟩, fun ⟨h₁, h₂, h₃, h₄⟩ => ⟨h₁, h₂, h₃, h₄⟩⟩

instance (cfg : Cfg) (name : CStr) : Decidable (cfg.NameKept name) :=
  decidable_of_iff
    ((name ≠ consoleName → ∀ ch ∈ cfg.handlers, ch.name.str = name → ch.type ≠ some .console) ∧
      (name = consoleName → cfg.consoleSections ≠ [] →
        ∃ ch ∈ cfg.handlers, ch.name.str = consoleName ∧
          (∀ first ∈ cfg.consoleSections.head?, first.type = ch.type) ∧
          lastLevel cfg.consoleSections = ch.ownLevel ∧
          lastFormat cfg.consoleSections = ch.ownFormat))
    ⟨fun ⟨h₁, h₂⟩ => ⟨h₁, h₂⟩, fun ⟨h₁, h₂⟩ => ⟨h₁, h₂⟩⟩

/--
**書かれた通りに配線されるための条件。**

整った設定を空の registry に適用すると、適用は必ず戻る。配線が書かれた通りになるのは、
logger の section に書かれたどの名前についても `NameKept` が成り立つとき、そのときに限る。
-/
theorem lmkCfgApply_wired_iff (env : Env) (config : Config) (hwf : cfg.WellFormed) :
    ∃ r, lmkCfgApply env (.empty config) cfg = some r ∧
      (cfg.Wired r ↔ ∀ cl ∈ cfg.loggers, ∀ n ∈ cl.handlerNames, cfg.NameKept n.str) := by
  have hready : Ready (applyHandlers env cfg.handlers (.empty cfg.config)) :=
    (ready_empty cfg.config).applyHandlers cfg.handlers
  refine ⟨_, lmkCfgApply_eq (ready_empty config) cfg, ?_⟩
  show cfg.Wired (applyLoggers cfg.loggers (applyHandlers env cfg.handlers (.empty cfg.config))) ↔ _
  generalize hx : applyHandlers env cfg.handlers (.empty cfg.config) = x at hready
  have haddr : (applyLoggers cfg.loggers x).handlerAddr? = x.handlerAddr? :=
    funext (extends_applyLoggers cfg.loggers).handlerAddr
  have hset : ∀ name, (lmkSearchLogHandlerByName (applyLoggers cfg.loggers x) name).map
      LogHandler.settings = settingsFor env cfg.handlers name := by
    intro name
    rw [applyLoggers_frame
      (g := fun u => (lmkSearchLogHandlerByName u name).map LogHandler.settings)
      (fun _ _ => rfl) (fun _ _ => search_setHandler (fun _ => rfl) fun _ => rfl), ← hx]
    exact settings_applyHandlers cfg.config cfg.handlers
  have hrefs : ∀ cl ∈ cfg.loggers, ∃ lg,
      lmkSearchLoggerByName (applyLoggers cfg.loggers x) cl.name.str = some lg ∧
        lg.handlerRefList = (foundNames (applyLoggers cfg.loggers x) cl.handlerNames).filterMap
          (applyLoggers cfg.loggers x).handlerAddr? := by
    intro cl hcl
    have hnone : lmkSearchLoggerByName x cl.name.str = none := by
      rw [← hx]
      exact applyHandlers_frame (g := fun u => lmkSearchLoggerByName u cl.name.str)
        (fun _ _ => rfl) cfg.handlers
    unfold foundNames
    rw [haddr]
    exact searchLogger_applyLoggers hready hwf.loggerNames hcl hnone
  rw [wired_iff_reaches (hready.applyLoggers cfg.loggers).addr hrefs]
  simp only [reaches_iff_nameKept hset hwf]

/-- 名前 `"console"` の配列。 -/
def consoleArray : CharArray 64 := ⟨consoleName, by decide⟩

/-- 名前 `"file"`。 -/
def fileName : CharArray 64 := ⟨⟨ascii "file", by decide⟩, by decide⟩

/-- console と file の section と、両方に付ける logger の section からなる設定。 -/
def plainCfg : Cfg where
  logBufferSize := 2048
  ringBufferSize := 1024
  handlers :=
    [{ CfgHandler.start consoleArray with type := some .console, level := 0 },
      { CfgHandler.start fileName with
        type := some .file, level := 1, filename := ⟨⟨ascii "app.log", by decide⟩, by decide⟩
        maxBackupFiles := 3 }]
  loggers := [{ CfgLogger.start appName with
    level := 2, handlerNames := [fileName, consoleArray, fileName], nr_handlers_le := by decide }]
  nr_handlers_le := by decide
  nr_loggers_le := by decide

theorem lmkCfgApply_wired_iff_plainCfg :
    plainCfg.WellFormed ∧ ∃ r, lmkCfgApply .loopback (.empty ⟨2048, 1024⟩) plainCfg = some r ∧
      plainCfg.Wired r := by
  have hwf : plainCfg.WellFormed := by decide +kernel
  obtain ⟨r, hr, hiff⟩ := lmkCfgApply_wired_iff .loopback ⟨2048, 1024⟩ hwf
  exact ⟨hwf, r, hr, hiff.mpr (by decide +kernel)⟩

/-- 名前 `"screen"`。 -/
def screenName : CharArray 64 := ⟨⟨ascii "screen", by decide⟩, by decide⟩

/-- `"screen"` という名前の console の section と、それに付ける logger の section からなる設定。 -/
def screenCfg : Cfg where
  logBufferSize := 2048
  ringBufferSize := 1024
  handlers := [{ CfgHandler.start screenName with type := some .console }]
  loggers := [{ CfgLogger.start appName with
    handlerNames := [screenName], nr_handlers_le := by decide }]
  nr_handlers_le := by decide
  nr_loggers_le := by decide

/-- console の section に別の名前を付けると、その名前を書いた logger はどこにも付かない。 -/
theorem lmkCfgApply_unwires_screen :
    screenCfg.WellFormed ∧ ∃ r, lmkCfgApply .loopback (.empty ⟨2048, 1024⟩) screenCfg = some r ∧
      r.loggers.map Logger.handlerRefList = [[]] ∧
      r.handlers.map LogHandler.name = [consoleName] ∧ ¬ screenCfg.Wired r := by
  have hshape : (lmkCfgApply .loopback (.empty ⟨2048, 1024⟩) screenCfg).map
      (fun r => (r.loggers.map Logger.handlerRefList, r.handlers.map LogHandler.name))
        = some ([[]], [consoleName]) := by
    decide +kernel
  obtain ⟨r, hr, hp⟩ := Option.map_eq_some_iff.mp hshape
  obtain ⟨hrefs, hnames⟩ := Prod.mk.inj hp
  refine ⟨by decide +kernel, r, hr, hrefs, hnames, ?_⟩
  intro hw
  obtain ⟨lg, hlg, hs, hlist, hsnames, -⟩ := hw _ List.mem_cons_self
  have hnil : lg.handlerRefList = [] := by
    have hmem := List.mem_map_of_mem (f := Logger.handlerRefList) (List.mem_of_find?_eq_some hlg)
    rw [hrefs] at hmem
    exact List.mem_singleton.mp hmem
  rw [hnil] at hlist
  rw [List.map_eq_nil_iff.mp hlist.symm] at hsnames
  exact absurd hsnames (by decide +kernel)

end Logmoko
