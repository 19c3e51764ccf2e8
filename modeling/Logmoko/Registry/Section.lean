import Logmoko.Lib.Overwrite
import Logmoko.Registry.Reachable

/-!
# handler の section

設定 file の `[handler:<name>]` 一つが、handler に対してすることである。

* `CfgHandler.target` — 登録される名前。無効な section では `none`
* `CfgHandler.newBody` — 新しく作るときの、種類ごとの部分
* `CfgHandler.update` — 既にある handler の上書き

上書きは、listener の追加を除いて後のものが勝つ（`update_overwrite`）。
listener だけは足されていく。
-/

namespace Logmoko

variable {env : Env} {ch c : CfgHandler} {name : CStr}

/-! ## 登録される名前と上書き -/

/-- section が登録される名前。console の section はいつも `"console"` になる。 -/
def CfgHandler.target (ch : CfgHandler) : Option CStr :=
  match ch.type with
  | none => none
  | some .console => some consoleName
  | some .file => if ch.filename.str.bytes = [] then none else some ch.name.str
  | some .socket | some .syslog => some ch.name.str

/-- section が作る handler の、種類ごとの部分。 -/
def CfgHandler.newBody (ch : CfgHandler) : HandlerBody :=
  match ch.type with
  | some .file => .file ch.filename.str defaultMaxFileSize defaultMaxBackupFiles
  | some .socket => .socket [] none
  | some .syslog =>
    .syslog ((ch.ident.orNull.getD .empty).take 63) (lmkParseSyslogFacility ch.facility.orNull)
  | some .console | none => .console

/-- listener 一つを足す。port が正でない listener は足さない。 -/
def CfgListener.attach (env : Env) (l : CfgListener) (body : HandlerBody) : HandlerBody :=
  if l.port ≤ 0 then body
  else body.attachListener
    { sinAddr := (env.inetPton l.host.str).getD 0, sinPort := (l.port % 2 ^ 16).toNat }

/-- section による、種類ごとの部分の上書き。 -/
def CfgHandler.updateBody (env : Env) (ch : CfgHandler) (body : HandlerBody) : HandlerBody :=
  match ch.type with
  | some .file =>
    if ch.maxFileSize > 0 ∨ ch.maxBackupFiles > 0 then
      body.setRotation (if ch.maxFileSize > 0 then ch.maxFileSize else defaultMaxFileSize)
        (if ch.maxBackupFiles > 0 then ch.maxBackupFiles else defaultMaxBackupFiles)
    else body
  | some .socket =>
    ch.listeners.foldl (fun body l => l.attach env body)
      (if ch.psk.str.bytes = [] then body else body.setPsk (env.deriveKey ch.psk.str))
  | some .console | some .syslog | none => body

/-- section が level を設定するなら、その level。 -/
def CfgHandler.updateLevel (ch : CfgHandler) (level : Int) : Int :=
  if ValidLogLevel ch.level then ch.level else level

/-- section が書式を設定するなら、その書式。 -/
def CfgHandler.updateFormat (ch : CfgHandler) (fn : Option FormatFn) : Option FormatFn :=
  if ch.format.str.bytes = [] then fn else lmkGetFormatFn (some ch.format.str)

/-- section による handler の上書き。 -/
def CfgHandler.update (env : Env) (ch : CfgHandler) (h : LogHandler) : LogHandler :=
  { h with
    body := ch.updateBody env h.body
    logLevel := ch.updateLevel h.logLevel
    formatFn := ch.updateFormat h.formatFn }

theorem shortName_target (h : ch.target = some name) : ShortName name := by
  unfold CfgHandler.target at h
  split at h
  · simp at h
  · rw [← Option.some.inj h]
    exact shortName_of_lt (by decide)
  · split at h
    · simp at h
    · rw [← Option.some.inj h]
      exact shortName_of_lt ch.name.fits
  · rw [← Option.some.inj h]
    exact shortName_of_lt ch.name.fits
  · rw [← Option.some.inj h]
    exact shortName_of_lt ch.name.fits

theorem type_listenerAttach (l : CfgListener) (body : HandlerBody) :
    (l.attach env body).type = body.type := by
  unfold CfgListener.attach
  split
  · rfl
  · exact type_attachListener _ _

theorem type_foldl_attach (ls : List CfgListener) (body : HandlerBody) :
    (ls.foldl (fun body l => l.attach env body) body).type = body.type := by
  induction ls generalizing body with
  | nil => rfl
  | cons l ls ih => rw [List.foldl_cons, ih, type_listenerAttach]

theorem type_updateBody (ch : CfgHandler) (body : HandlerBody) :
    (ch.updateBody env body).type = body.type := by
  unfold CfgHandler.updateBody
  split
  · split
    · exact type_setRotation _ _ _
    · rfl
  · rw [type_foldl_attach]
    split
    · rfl
    · exact type_setPsk _ _
  · rfl
  · rfl
  · rfl

theorem keepsHandler_update (ch : CfgHandler) : KeepsHandler (ch.update env) where
  addr _ := rfl
  name _ := rfl
  nrLoggerRef _ := rfl
  initialized _ := rfl
  type h := type_updateBody ch h.body
  level h hv := by
    show ValidLogLevel (ch.updateLevel h.logLevel)
    unfold CfgHandler.updateLevel
    split
    · next hc => exact hc
    · exact hv

/-! ## 種類ごとの上書き -/

/-- section が足す listener。socket の section の、port が正のものだけである。 -/
def CfgHandler.servers (env : Env) (ch : CfgHandler) : List LogServer :=
  if ch.type = some .socket then
    (ch.listeners.filter fun l => 0 < l.port).map fun l =>
      { sinAddr := (env.inetPton l.host.str).getD 0, sinPort := (l.port % 2 ^ 16).toNat }
  else []

/-- section が鍵を設定するなら、その鍵。 -/
def CfgHandler.updatePsk (env : Env) (ch : CfgHandler) (psk : Option (List UInt8)) :
    Option (List UInt8) :=
  if ch.type = some .socket ∧ ch.psk.str.bytes ≠ [] then some (env.deriveKey ch.psk.str) else psk

/-- section が回転を設定するなら、その大きさと個数。 -/
def CfgHandler.updateRotation (ch : CfgHandler) (rotation : Int × Int) : Int × Int :=
  if ch.type = some .file ∧ (ch.maxFileSize > 0 ∨ ch.maxBackupFiles > 0) then
    (if ch.maxFileSize > 0 then ch.maxFileSize else defaultMaxFileSize,
      if ch.maxBackupFiles > 0 then ch.maxBackupFiles else defaultMaxBackupFiles)
  else rotation

theorem foldl_attach_socket (ls : List CfgListener) (servers : List LogServer)
    (psk : Option (List UInt8)) :
    ls.foldl (fun body l => l.attach env body) (.socket servers psk)
      = .socket (servers ++ (ls.filter fun l => 0 < l.port).map fun l =>
          { sinAddr := (env.inetPton l.host.str).getD 0
            sinPort := (l.port % 2 ^ 16).toNat }) psk := by
  induction ls generalizing servers with
  | nil => simp
  | cons l ls ih =>
    rw [List.foldl_cons]
    by_cases hp : 0 < l.port
    · have hattach : l.attach env (.socket servers psk) = .socket (servers ++
          [{ sinAddr := (env.inetPton l.host.str).getD 0
             sinPort := (l.port % 2 ^ 16).toNat }]) psk := by
        unfold CfgListener.attach
        rw [if_neg (by omega)]
        rfl
      rw [hattach, ih]
      simp [hp]
    · have hattach : l.attach env (.socket servers psk) = .socket servers psk := by
        unfold CfgListener.attach
        rw [if_pos (by omega)]
      rw [hattach, ih]
      simp [hp]

/-- socket でない handler には listener は付かない。 -/
theorem foldl_attach_of_ne_socket (ls : List CfgListener) {body : HandlerBody}
    (h : body.type ≠ .socket) : ls.foldl (fun body l => l.attach env body) body = body := by
  induction ls with
  | nil => rfl
  | cons l ls ih =>
    have hattach : l.attach env body = body := by
      unfold CfgListener.attach
      split
      · rfl
      · cases body with
        | socket servers psk => exact absurd rfl h
        | console | file | syslog => rfl
    rw [List.foldl_cons, hattach, ih]

/-- 上書きの、handler の種類ごとの形。 -/
theorem updateBody_eq (ch : CfgHandler) (body : HandlerBody) :
    ch.updateBody env body = match body with
      | .console => .console
      | .file filename m n =>
        .file filename (ch.updateRotation (m, n)).1 (ch.updateRotation (m, n)).2
      | .socket servers psk => .socket (servers ++ ch.servers env) (ch.updatePsk env psk)
      | .syslog ident facility => .syslog ident facility := by
  unfold CfgHandler.updateBody CfgHandler.servers CfgHandler.updatePsk CfgHandler.updateRotation
  cases ht : ch.type with
  | none => cases body <;> simp
  | some type =>
    cases type with
    | console | syslog => cases body <;> simp
    | file =>
      by_cases hr : ch.maxFileSize > 0 ∨ ch.maxBackupFiles > 0
      · simp only [hr, if_true]
        cases body <;> simp [HandlerBody.setRotation]
      · simp only [hr, if_false]
        cases body <;> simp
    | socket =>
      by_cases he : ch.psk.str.bytes = []
      · cases body with
        | socket servers psk => simp [he, foldl_attach_socket]
        | console | file | syslog =>
          simp only [he, if_true]
          exact foldl_attach_of_ne_socket _ (by simp [HandlerBody.type])
      · cases body with
        | socket servers psk => simp [he, HandlerBody.setPsk, foldl_attach_socket]
        | console | file | syslog =>
          simp only [he, if_false, HandlerBody.setPsk]
          exact foldl_attach_of_ne_socket _ (by simp [HandlerBody.type])

/-! ## 後の上書きが勝つ -/

/-- section は listener を足す。 -/
def CfgHandler.Listens (ch : CfgHandler) : Prop :=
  ch.type = some .socket ∧ ∃ l ∈ ch.listeners, 0 < l.port

instance (ch : CfgHandler) : Decidable ch.Listens := inferInstanceAs (Decidable (_ ∧ _))

theorem servers_eq_nil_iff : ch.servers env = [] ↔ ¬ ch.Listens := by
  unfold CfgHandler.servers CfgHandler.Listens
  split
  · next ht => simp [ht]
  · next ht => simp [ht]

theorem fixes_updateRotation : Overwrite.Fixes ch.updateRotation := Overwrite.fixes_ite

theorem fixes_updatePsk : Overwrite.Fixes (ch.updatePsk env) := Overwrite.fixes_ite

theorem fixes_updateLevel : Overwrite.Fixes ch.updateLevel := Overwrite.fixes_ite

theorem fixes_updateFormat : Overwrite.Fixes ch.updateFormat := by
  by_cases he : ch.format.str.bytes = []
  · exact Or.inr fun fn => if_pos he
  · exact Or.inl ⟨_, fun fn => if_neg he⟩

/-- listener を足さない section の上書きは、後の同じ上書きに隠れる。 -/
theorem updateBody_overwrite {body : HandlerBody} (h : ch.Listens → body.type ≠ .socket) :
    ch.updateBody env (c.updateBody env (ch.updateBody env body))
      = ch.updateBody env (c.updateBody env body) := by
  simp only [updateBody_eq]
  cases body with
  | console | syslog => rfl
  | file filename m n => simp only [Prod.mk.eta, fixes_updateRotation.overwrite]
  | socket servers psk =>
    have hnil : ch.servers env = [] := servers_eq_nil_iff.mpr fun hl => h hl rfl
    simp only [hnil, List.append_nil, fixes_updatePsk.overwrite]

theorem updateBody_idem {body : HandlerBody} (h : ch.Listens → body.type ≠ .socket) :
    ch.updateBody env (ch.updateBody env body) = ch.updateBody env body := by
  simp only [updateBody_eq]
  cases body with
  | console | syslog => rfl
  | file filename m n => simp only [Prod.mk.eta, fixes_updateRotation.idem]
  | socket servers psk =>
    have hnil : ch.servers env = [] := servers_eq_nil_iff.mpr fun hl => h hl rfl
    simp only [hnil, List.append_nil, fixes_updatePsk.idem]

theorem update_overwrite {h : LogHandler} (hq : ch.Listens → h.body.type ≠ .socket) :
    ch.update env (c.update env (ch.update env h)) = ch.update env (c.update env h) := by
  unfold CfgHandler.update
  simp only [updateBody_overwrite hq, fixes_updateLevel.overwrite, fixes_updateFormat.overwrite]

theorem update_idem {h : LogHandler} (hq : ch.Listens → h.body.type ≠ .socket) :
    ch.update env (ch.update env h) = ch.update env h := by
  unfold CfgHandler.update
  simp only [updateBody_idem hq, fixes_updateLevel.idem, fixes_updateFormat.idem]

end Logmoko
