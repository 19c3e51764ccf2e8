import Logmoko.Intrusive.Model
import Logmoko.Lib.Run

/-!
# 走査の最中の listener の追加

`lmk_attach_log_listener` は `handler->lock` の中で `log_server_list` に node を足す。
送信の thread は lock を取らずに同じ list を走査する。
pointer の store ひとつと cursor の load ひとつをそれぞれ一 step とし、
どんな順に混ざってもよい系として写す。node が外されることはない。

追加の六つの store のうち、走査から見えるのは `list->prev->next = entry` だけである。
その時には `entry` の二つの link はもう書かれているので、`next` の path は
いつも番兵から番兵へつながり、node が一つ増えるときも途中の形を見せない。
最後の `list->prev = entry` は走査の読まない link なので、遅れても構わない。

* `AttachStore` — 六つの store
* `listenerStep` — 系の一 step
* `ListenerInv` — 不変量。`linked` は `list->prev->next` が書かれた node を順に控えた履歴である
-/

namespace Logmoko

open Links Transition

variable {ι α : Type}

/-! ## 追加の store -/

/-- `lmk_init_list` の二つの store と、`lmk_insert_list` の四つの store。 -/
inductive AttachStore where
  | initPrev
  | initNext
  | entryPrev
  | entryNext
  | lastNext
  | listPrev
deriving DecidableEq

/-- `lmk_attach_log_listener` の実行位置。`storing` は次に行う store を持つ。 -/
inductive AttachPc (α : Type) where
  | idle
  | locked
  | storing (entry : α) (store : AttachStore)
  | leaving
deriving DecidableEq

/-- 次の store。最後の store の後は lock を手放すだけである。 -/
def AttachStore.next (entry : α) : AttachStore → AttachPc α
  | .initPrev => .storing entry .initNext
  | .initNext => .storing entry .entryPrev
  | .entryPrev => .storing entry .entryNext
  | .entryNext => .storing entry .lastNext
  | .lastNext => .storing entry .listPrev
  | .listPrev => .leaving

/-- 一つの store の後の `linked`。 -/
def AttachStore.linkedAfter (entry : α) (linked : List α) : AttachStore → List α
  | .lastNext => linked ++ [entry]
  | .initPrev | .initNext | .entryPrev | .entryNext | .listPrev => linked

/-- 走査の位置。`visited` は本体を済ませた node、`before` は走査を始めた時の `linked` である。 -/
inductive ListenerReader (α : Type) where
  | idle
  | walking (cursor : Option α) (visited before : List α)
  | done (visited before : List α)

/-- 系の状態。 -/
structure ListenerState (ι α : Type) where
  heap : Heap α
  lock : Option ι
  pc : ι → AttachPc α
  reader : ListenerReader α
  linked : List α

/-- 系の動作。`malloc` の結果は外から与える。 -/
inductive ListenerAction (ι α : Type) where
  | lock (i : ι)
  | malloc (i : ι) (entry : Option α)
  | store (i : ι)
  | unlock (i : ι)
  | begin
  | iterate

/-- 番兵の環だけがあり、誰も動いていない状態。 -/
def listenerInitial (ι : Type) (h : Heap α) (xs : List α) : ListenerState ι α :=
  { heap := h, lock := none, pc := fun _ => .idle, reader := .idle, linked := xs }

section

variable [DecidableEq α]

/-- 一つの store。 -/
def AttachStore.write (h : Heap α) (list entry : α) : AttachStore → Option (Heap α)
  | .initPrev => h.setPrev (some entry) (some entry)
  | .initNext => h.setNext (some entry) (some entry)
  | .entryPrev => do
    let node ← h.load (some list)
    h.setPrev (some entry) node.prev
  | .entryNext => h.setNext (some entry) (some list)
  | .lastNext => do
    let node ← h.load (some list)
    h.setNext node.prev (some entry)
  | .listPrev => h.setPrev (some list) (some entry)

/-- 六つの store を続けて行うと、初期化してから追加したのと同じである。 -/
theorem attachStores_eq (h : Heap α) (list entry : α) :
    (do
      let h ← AttachStore.initPrev.write h list entry
      let h ← AttachStore.initNext.write h list entry
      let h ← AttachStore.entryPrev.write h list entry
      let h ← AttachStore.entryNext.write h list entry
      let h ← AttachStore.lastNext.write h list entry
      AttachStore.listPrev.write h list entry) =
    (do
      let h ← lmkInitList h (some entry)
      lmkInsertList h (some list) (some entry)) := by
  simp only [AttachStore.write, lmkInitList, lmkInsertList, Option.bind_eq_bind,
    Option.bind_assoc]

/-- 系の一 step。 -/
def listenerStep [DecidableEq ι] (list : α) (s : ListenerState ι α) :
    ListenerAction ι α → Option (ListenerState ι α)
  | .lock i =>
    if s.lock = none ∧ s.pc i = .idle then
      some { s with lock := some i, pc := Function.update s.pc i .locked }
    else none
  | .malloc i entry =>
    if s.pc i = .locked then
      match entry with
      | none => some { s with pc := Function.update s.pc i .leaving }
      | some e =>
        if (s.heap e).isNone then
          some { s with
            heap := Function.update s.heap e (some { next := none, prev := none })
            pc := Function.update s.pc i (.storing e .initPrev) }
        else none
    else none
  | .store i =>
    match s.pc i with
    | .storing e st =>
      (st.write s.heap list e).map fun h =>
        { s with
          heap := h
          pc := Function.update s.pc i (st.next e)
          linked := st.linkedAfter e s.linked }
    | _ => none
  | .unlock i =>
    if s.pc i = .leaving then
      some { s with lock := none, pc := Function.update s.pc i .idle }
    else none
  | .begin =>
    match s.reader with
    | .walking _ _ _ => none
    | _ => do
      let node ← s.heap.load (some list)
      return { s with reader := .walking node.next [] s.linked }
  | .iterate =>
    match s.reader with
    | .walking cursor visited before =>
      if cursor = some list then some { s with reader := .done visited before }
      else do
        let x ← cursor
        let node ← s.heap.load cursor
        return { s with reader := .walking node.next (visited ++ [x]) before }
    | _ => none

end

/-! ## 不変量 -/

/-- 次の store の手前で、`entry` について言えること。 -/
def AttachStore.Ready (h : Heap α) (list entry : α) (linked : List α) : AttachStore → Prop
  | .initPrev | .initNext | .entryPrev => entry ∉ list :: linked
  | .entryNext => entry ∉ list :: linked ∧ h.prev entry = some (linked.getLastD list)
  | .lastNext => entry ∉ list :: linked ∧ h.prev entry = some (linked.getLastD list) ∧
      h.next entry = some list
  | .listPrev => linked.getLastD list = entry

/-- 走査の位置について言えること。 -/
def ListenerReader.Ok (list : α) (linked : List α) : ListenerReader α → Prop
  | .idle => True
  | .walking cursor visited before =>
    before <+: linked ∧ visited <+: linked ∧
      ((cursor = some list ∧ before <+: visited) ∨
        ∃ c, cursor = some c ∧ c ≠ list ∧ visited ++ [c] <+: linked)
  | .done visited before => before <+: visited ∧ visited <+: linked

/--
`next` の path は番兵から番兵へつながり、`prev` の path もそうである。
ただし番兵の `prev` は、最後の store を待つ間は一つ古いので、最後の node に読み替える。
-/
structure LinkedList [DecidableEq α] (h : Heap α) (list : α) (linked : List α) : Prop where
  nodup : (list :: linked).Nodup
  next : Path h.next list linked list
  prev : Path (Function.update h.prev list (some (linked.getLastD list))) list linked.reverse list

/-- 系の不変量。 -/
structure ListenerInv [DecidableEq α] (list : α) (s : ListenerState ι α) : Prop where
  isList : LinkedList s.heap list s.linked
  tail : (∀ i e, s.pc i ≠ .storing e .listPrev) →
    s.heap.prev list = some (s.linked.getLastD list)
  holder : ∀ i, s.pc i ≠ .idle → s.lock = some i
  storing : ∀ i e st, s.pc i = .storing e st →
    (s.heap e).isSome ∧ st.Ready s.heap list e s.linked
  reader : s.reader.Ok list s.linked

variable [DecidableEq α] {h h' : Heap α} {list e x : α} {xs ys zs linked : List α}

/-- 番兵の `prev` が最後の node を指していれば、環である。 -/
theorem LinkedList.circular (hl : LinkedList h list xs)
    (htail : h.prev list = some (xs.getLastD list)) : Circular h list xs := by
  have hprev := hl.prev
  rw [← htail, Function.update_eq_self] at hprev
  exact ⟨hl.next, hprev, hl.nodup⟩

/-- 環なら、番兵の `prev` を読み替えても変わらない。 -/
theorem LinkedList.of_circular (hc : Circular h list xs) : LinkedList h list xs := by
  refine ⟨hc.nodup, hc.next, ?_⟩
  rw [← hc.prev_head, Function.update_eq_self]
  exact hc.prev

/-- 番兵の `prev` と、つながれていない番地は、何になってもよい。 -/
theorem LinkedList.congr (hl : LinkedList h list xs)
    (hnext : ∀ y ∈ list :: xs, h'.next y = h.next y) (hprev : ∀ y ∈ xs, h'.prev y = h.prev y) :
    LinkedList h' list xs := by
  refine ⟨hl.nodup, hl.next.congr hnext, hl.prev.congr ?_⟩
  intro y hy
  by_cases heq : y = list
  · subst heq
    rw [Function.update_self, Function.update_self]
  · rw [Function.update_of_ne heq, Function.update_of_ne heq]
    refine hprev y ?_
    rcases List.mem_cons.mp hy with hy | hy
    · exact absurd hy heq
    · exact List.mem_reverse.mp hy

/-- 二つの link を書き終えた `entry` を最後の node につなぐ。 -/
theorem LinkedList.link (hl : LinkedList h list xs) (he : e ∉ list :: xs)
    (hprev : h.prev e = some (xs.getLastD list)) (hnext : h.next e = some list)
    (hn : ∀ y, h'.next y = if y = xs.getLastD list then some e else h.next y)
    (hp : ∀ y, h'.prev y = h.prev y) : LinkedList h' list (xs ++ [e]) := by
  have hne : e ≠ list := fun heq => he (heq ▸ List.mem_cons_self)
  have hlast : e ≠ xs.getLastD list := fun heq => he (heq ▸ List.getLastD_mem_cons)
  refine ⟨?_, ?_, ?_⟩
  · show (list :: xs ++ [e]).Nodup
    exact List.nodup_append_comm.mp (List.nodup_cons.mpr ⟨he, hl.nodup⟩)
  · refine hl.next.extend hl.nodup (by rw [hn, if_pos rfl]) (by rw [hn, if_neg hlast, hnext]) ?_
    intro y _ hy
    rw [hn, if_neg hy]
  · rw [List.reverse_append, List.reverse_singleton, List.getLastD_concat]
    refine hl.prev.prepend (by rw [Function.update_self]) ?_ ?_
    · rw [Function.update_of_ne hne, Function.update_self, hp, hprev]
    · intro y hy
      have hy' : y ≠ list :=
        fun heq => (List.nodup_cons.mp hl.nodup).1 (heq ▸ List.mem_reverse.mp hy)
      rw [Function.update_of_ne hy', Function.update_of_ne hy', hp]

/-- つながれた node の二つの link は、どちらも list の中を指している。 -/
theorem LinkedList.links (hl : LinkedList h list (ys ++ x :: zs)) :
    h.next x = some (zs.headD list) ∧ h.prev x = some (ys.getLastD list) := by
  have hx : x ≠ list := by
    rintro rfl
    exact (List.nodup_cons.mp hl.nodup).1 (List.mem_append_right ys List.mem_cons_self)
  have hprev := hl.prev
  rw [List.reverse_append, List.reverse_cons, List.append_assoc, List.singleton_append,
    path_append] at hprev
  refine ⟨(path_append.mp hl.next).2.first, ?_⟩
  have hfirst := hprev.2.first
  rw [Function.update_of_ne hx] at hfirst
  rw [hfirst]
  simp

/-! ## 走査 -/

omit [DecidableEq α] in
/-- node が増えても、走査の位置について言えることは変わらない。 -/
theorem ListenerReader.Ok.mono {r : ListenerReader α} (hr : r.Ok list xs) (hp : xs <+: ys) :
    r.Ok list ys := by
  cases r with
  | idle => trivial
  | walking cursor visited before =>
    obtain ⟨hb, hv, hc⟩ := hr
    refine ⟨hb.trans hp, hv.trans hp, hc.imp_right ?_⟩
    rintro ⟨c, hc, hne, hpre⟩
    exact ⟨c, hc, hne, hpre.trans hp⟩
  | done visited before => exact ⟨hr.1, hr.2.trans hp⟩

/-- cursor を `visited` の次へ進めた後の位置。 -/
theorem reader_ok_of_next (hl : LinkedList h list (ys ++ zs)) {before : List α}
    (hb : before <+: ys ++ zs) :
    (ListenerReader.walking (some (zs.headD list)) ys before).Ok list (ys ++ zs) := by
  refine ⟨hb, List.prefix_append ys zs, ?_⟩
  cases zs with
  | nil =>
    rw [List.append_nil] at hb
    exact Or.inl ⟨rfl, hb⟩
  | cons z zs =>
    refine Or.inr ⟨z, rfl, ?_, ⟨zs, by simp⟩⟩
    rintro rfl
    exact (List.nodup_cons.mp hl.nodup).1 (List.mem_append_right ys List.mem_cons_self)

/-! ## 追加の一 step -/

/-- 一つの store の後に成り立つこと。 -/
structure AttachStore.Done (st : AttachStore) (h h' : Heap α) (list entry : α)
    (linked : List α) : Prop where
  cells : SameCells h h'
  isList : LinkedList h' list (st.linkedAfter entry linked)
  tail : st ≠ .lastNext → h'.prev list = some ((st.linkedAfter entry linked).getLastD list)
  ready : ∀ e' st', st.next entry = .storing e' st' →
    e' = entry ∧ st'.Ready h' list entry (st.linkedAfter entry linked)

/-- まだつながれていない `entry` の link への store は、list からは見えない。 -/
theorem LinkedList.private (hl : LinkedList h list linked) (h' : Heap α) (he : e ∉ list :: linked)
    (htail : h.prev list = some (linked.getLastD list))
    (hne : ∀ y, y ≠ e → h'.next y = h.next y ∧ h'.prev y = h.prev y) :
    LinkedList h' list linked ∧ h'.prev list = some (linked.getLastD list) := by
  have hmem : ∀ y ∈ list :: linked, y ≠ e := fun y hy heq => he (heq ▸ hy)
  refine ⟨hl.congr ?_ ?_, ?_⟩
  · intro y hy
    exact (hne y (hmem y hy)).1
  · intro y hy
    exact (hne y (hmem y (List.mem_cons_of_mem _ hy))).2
  · rw [(hne list (hmem list List.mem_cons_self)).2, htail]

/-- 用意のできた store は成功し、次の store の用意をする。 -/
theorem AttachStore.exists_write {st : AttachStore} (hl : LinkedList h list linked)
    (htail : st ≠ .listPrev → h.prev list = some (linked.getLastD list))
    (hcell : (h e).isSome) (hready : st.Ready h list e linked) :
    ∃ h', st.write h list e = some h' ∧ st.Done h h' list e linked := by
  cases st with
  | initPrev =>
    obtain ⟨h', hw, hc, hp, hn⟩ := exists_setPrev h hcell (some e)
    obtain ⟨hl', ht'⟩ := hl.private h' hready (htail (by decide)) fun y hy =>
      ⟨hn y, by rw [hp, if_neg hy]⟩
    refine ⟨h', hw, hc, hl', fun _ => ht', ?_⟩
    rintro e' st' ⟨⟩
    exact ⟨rfl, hready⟩
  | initNext =>
    obtain ⟨h', hw, hc, hn, hp⟩ := exists_setNext h hcell (some e)
    obtain ⟨hl', ht'⟩ := hl.private h' hready (htail (by decide)) fun y hy =>
      ⟨by rw [hn, if_neg hy], hp y⟩
    refine ⟨h', hw, hc, hl', fun _ => ht', ?_⟩
    rintro e' st' ⟨⟩
    exact ⟨rfl, hready⟩
  | entryPrev =>
    obtain ⟨d, hd, hdp⟩ := prev_eq_some.mp (htail (by decide))
    obtain ⟨h', hw, hc, hp, hn⟩ := exists_setPrev h hcell (some (linked.getLastD list))
    obtain ⟨hl', ht'⟩ := hl.private h' hready (htail (by decide)) fun y hy =>
      ⟨hn y, by rw [hp, if_neg hy]⟩
    refine ⟨h', ?_, hc, hl', fun _ => ht', ?_⟩
    · simp only [AttachStore.write, load_some, hd, hdp, Option.bind_eq_bind, Option.bind_some, hw]
    · rintro e' st' ⟨⟩
      exact ⟨rfl, hready, by rw [hp, if_pos rfl, AttachStore.linkedAfter]⟩
  | entryNext =>
    obtain ⟨he, hprev⟩ := hready
    obtain ⟨h', hw, hc, hn, hp⟩ := exists_setNext h hcell (some list)
    obtain ⟨hl', ht'⟩ := hl.private h' he (htail (by decide)) fun y hy =>
      ⟨by rw [hn, if_neg hy], hp y⟩
    refine ⟨h', hw, hc, hl', fun _ => ht', ?_⟩
    rintro e' st' ⟨⟩
    exact ⟨rfl, he, by rw [hp, hprev, AttachStore.linkedAfter], by rw [hn, if_pos rfl]⟩
  | lastNext =>
    obtain ⟨he, hprev, hnext⟩ := hready
    obtain ⟨d, hd, hdp⟩ := prev_eq_some.mp (htail (by decide))
    obtain ⟨h', hw, hc, hn, hp⟩ :=
      exists_setNext h (hl.next.isSome List.getLastD_mem_cons) (some e)
    refine ⟨h', ?_, hc, hl.link he hprev hnext hn hp, fun hne => absurd rfl hne, ?_⟩
    · simp only [AttachStore.write, load_some, hd, hdp, Option.bind_eq_bind, Option.bind_some, hw]
    · rintro e' st' ⟨⟩
      exact ⟨rfl, List.getLastD_concat⟩
  | listPrev =>
    obtain ⟨h', hw, hc, hp, hn⟩ := exists_setPrev h (hl.next.isSome List.mem_cons_self) (some e)
    refine ⟨h', hw, hc, hl.congr (fun y _ => hn y) ?_, fun _ => ?_, ?_⟩
    · intro y hy
      have hne : y ≠ list := fun heq => (List.nodup_cons.mp hl.nodup).1 (heq ▸ hy)
      rw [hp, if_neg hne]
    · rw [hp, if_pos rfl]
      exact congrArg some hready.symm
    · rintro e' st' ⟨⟩

variable [DecidableEq ι] {s s' : ListenerState ι α}

omit [DecidableEq ι] in
/-- 呼び出しの中の thread は lock を持ち、他の thread は呼び出しの外にいる。 -/
theorem ListenerInv.alone (hi : ListenerInv list s) {i : ι} {q : AttachPc α} (hpc : s.pc i = q)
    (hq : q ≠ .idle) : s.lock = some i ∧ ∀ j, j ≠ i → s.pc j = .idle := by
  subst hpc
  have hlock := hi.holder i hq
  refine ⟨hlock, ?_⟩
  intro j hj
  by_contra hne
  rw [hi.holder j hne] at hlock
  exact hj (Option.some.inj hlock)

omit [DecidableEq ι] in
/-- 誰も lock を持たなければ、どの thread も呼び出しの外にいる。 -/
theorem ListenerInv.idle_of_unlocked (hi : ListenerInv list s) (hlock : s.lock = none) (i : ι) :
    s.pc i = .idle := by
  by_contra hne
  have hheld := hi.holder i hne
  rw [hlock] at hheld
  cases hheld

/-- 他の thread が呼び出しの外にいれば、一つの thread の step はその thread だけを見ればよい。 -/
theorem ListenerInv.act {i : ι} {lock : Option ι} {q : AttachPc α}
    (hother : ∀ j, j ≠ i → s.pc j = .idle) (hl : LinkedList h list linked)
    (htail : (∀ e, q ≠ .storing e .listPrev) → h.prev list = some (linked.getLastD list))
    (hlock : q ≠ .idle → lock = some i)
    (hstoring : ∀ e st, q = .storing e st → (h e).isSome ∧ st.Ready h list e linked)
    (hreader : s.reader.Ok list linked) :
    ListenerInv list
      { s with heap := h, lock := lock, pc := Function.update s.pc i q, linked := linked } := by
  have hself : Function.update s.pc i q i = q := Function.update_self i q s.pc
  refine ⟨hl, ?_, ?_, ?_, hreader⟩
  · intro hno
    exact htail fun e => hself ▸ hno i e
  · intro j (hj : Function.update s.pc i q j ≠ .idle)
    by_cases heq : j = i
    · subst heq
      rw [hself] at hj
      exact hlock hj
    · rw [Function.update_of_ne heq] at hj
      exact absurd (hother j heq) hj
  · intro j e st (hj : Function.update s.pc i q j = .storing e st)
    by_cases heq : j = i
    · subst heq
      rw [hself] at hj
      exact hstoring e st hj
    · rw [Function.update_of_ne heq, hother j heq] at hj
      cases hj

omit [DecidableEq ι] in
/-- 誰も store の最中でなければ、番兵の `prev` は最後の node を指す。 -/
theorem ListenerInv.tail_of_pc (hi : ListenerInv list s) {i : ι}
    (hother : ∀ j, j ≠ i → s.pc j = .idle) (hpc : ∀ e, s.pc i ≠ .storing e .listPrev) :
    s.heap.prev list = some (s.linked.getLastD list) := by
  refine hi.tail ?_
  intro j e
  by_cases heq : j = i
  · subst heq
    exact hpc e
  · rw [hother j heq]
    exact fun h => by cases h

/-- memory に触れない step。 -/
theorem ListenerInv.move {i : ι} {lock : Option ι} {q : AttachPc α} (hi : ListenerInv list s)
    (hother : ∀ j, j ≠ i → s.pc j = .idle) (hpc : ∀ e, s.pc i ≠ .storing e .listPrev)
    (hlock : q ≠ .idle → lock = some i) (hq : ∀ e st, q ≠ .storing e st) :
    ListenerInv list { s with lock := lock, pc := Function.update s.pc i q } := by
  refine ListenerInv.act hother hi.isList ?_ hlock ?_ hi.reader
  · intro _
    exact hi.tail_of_pc hother hpc
  · intro e st h
    exact absurd h (hq e st)

/-- まだ割り当てられていない番地は list の中にない。 -/
theorem ListenerInv.malloc {i : ι} (hi : ListenerInv list s)
    (hother : ∀ j, j ≠ i → s.pc j = .idle)
    (htail : s.heap.prev list = some (s.linked.getLastD list)) (hlock : s.lock = some i)
    (hfree : s.heap e = none) :
    ListenerInv list { s with
      heap := Function.update s.heap e (some { next := none, prev := none })
      pc := Function.update s.pc i (.storing e .initPrev) } := by
  have he : e ∉ list :: s.linked := by
    intro hm
    have hcell := hi.isList.next.isSome hm
    rw [hfree] at hcell
    cases hcell
  obtain ⟨hl, ht⟩ := hi.isList.private
    (Function.update s.heap e (some { next := none, prev := none })) he htail fun y hy => by
      simp only [Heap.next, Heap.prev, Function.update_of_ne hy, and_self]
  refine ListenerInv.act hother hl (fun _ => ht) (fun _ => hlock) ?_ hi.reader
  rintro e' st ⟨⟩
  exact ⟨by rw [Function.update_self]; rfl, he⟩

/-- 追加の一 step は不変量を保つ。 -/
theorem ListenerInv.store {i : ι} {st : AttachStore} (hi : ListenerInv list s)
    (hpc : s.pc i = .storing e st) (hw : st.write s.heap list e = some h) :
    ListenerInv list { s with
      heap := h
      pc := Function.update s.pc i (st.next e)
      linked := st.linkedAfter e s.linked } := by
  obtain ⟨hlock, hother⟩ := hi.alone hpc fun h => by cases h
  obtain ⟨hcell, hready⟩ := hi.storing i e st hpc
  obtain ⟨h', hw', hdone⟩ := AttachStore.exists_write hi.isList
    (fun hst => hi.tail_of_pc hother fun e' h => by
      rw [hpc] at h
      cases h
      exact hst rfl) hcell hready
  obtain rfl := Option.some.inj (hw.symm.trans hw')
  refine ListenerInv.act hother hdone.isList ?_ (fun _ => hlock) ?_ ?_
  · intro hno
    refine hdone.tail ?_
    rintro rfl
    exact hno e rfl
  · intro e' st' hq
    obtain ⟨rfl, hr⟩ := hdone.ready e' st' hq
    exact ⟨(hdone.cells e').trans hcell, hr⟩
  · refine hi.reader.mono ?_
    cases st with
    | lastNext => exact List.prefix_append _ _
    | initPrev | initNext | entryPrev | entryNext | listPrev => exact List.prefix_refl _

omit [DecidableEq ι] in
/-- 走査の一 step は不変量を保つ。 -/
theorem ListenerInv.setReader {r : ListenerReader α} (hi : ListenerInv list s)
    (hr : r.Ok list s.linked) : ListenerInv list { s with reader := r } :=
  ⟨hi.isList, hi.tail, hi.holder, hi.storing, hr⟩

omit [DecidableEq ι] in
/-- cursor の node はつながれているので、その `next` は列の次の node である。 -/
theorem ListenerInv.next_of_walking {c : α} {visited before : List α} (hi : ListenerInv list s)
    (hb : before <+: s.linked) (hpre : visited ++ [c] <+: s.linked) :
    ∃ x, s.heap.next c = some x ∧
      (ListenerReader.walking (some x) (visited ++ [c]) before).Ok list s.linked := by
  obtain ⟨zs, hzs⟩ := hpre
  have hl : LinkedList s.heap list (visited ++ c :: zs) := by
    rw [List.append_cons, hzs]
    exact hi.isList
  refine ⟨zs.headD list, hl.links.1, ?_⟩
  rw [← hzs] at hb ⊢
  exact reader_ok_of_next (hzs ▸ hi.isList) hb

/-- どの step も不変量を保つ。 -/
theorem listenerInv_step {a : ListenerAction ι α} (hi : ListenerInv list s)
    (hs : listenerStep list s a = some s') : ListenerInv list s' := by
  cases a with
  | lock i =>
    simp only [listenerStep] at hs
    split at hs
    · next hc =>
      obtain rfl := Option.some.inj hs
      refine hi.move (fun j _ => hi.idle_of_unlocked hc.1 j) ?_ (fun _ => rfl) ?_
      · intro e h
        rw [hc.2] at h
        cases h
      · intro e st h
        cases h
    · cases hs
  | malloc i entry =>
    simp only [listenerStep] at hs
    split at hs
    · next hpc =>
      obtain ⟨hlock, hother⟩ := hi.alone hpc fun h => by cases h
      have hnot : ∀ e, s.pc i ≠ .storing e .listPrev := fun e h => by rw [hpc] at h; cases h
      cases entry with
      | none =>
        obtain rfl := Option.some.inj hs
        exact hi.move hother hnot (fun _ => hlock) fun e st h => by cases h
      | some e =>
        simp only at hs
        split at hs
        · next hfree =>
          obtain rfl := Option.some.inj hs
          exact hi.malloc hother (hi.tail_of_pc hother hnot) hlock
            (Option.isNone_iff_eq_none.mp hfree)
        · cases hs
    · cases hs
  | store i =>
    simp only [listenerStep] at hs
    split at hs
    · next e st hpc =>
      obtain ⟨h', hw, rfl⟩ := Option.map_eq_some_iff.mp hs
      exact hi.store hpc hw
    · cases hs
  | unlock i =>
    simp only [listenerStep] at hs
    split at hs
    · next hpc =>
      obtain rfl := Option.some.inj hs
      obtain ⟨-, hother⟩ := hi.alone hpc fun h => by cases h
      refine hi.move hother ?_ (fun h => absurd rfl h) fun e st h => by cases h
      intro e h
      rw [hpc] at h
      cases h
    · cases hs
  | begin =>
    have hnil : LinkedList s.heap list ([] ++ s.linked) := hi.isList
    have hr := reader_ok_of_next hnil (List.prefix_refl s.linked)
    obtain ⟨d, hd, hdn⟩ := next_eq_some.mp hi.isList.next.first
    simp only [listenerStep, load_some, hd, hdn, Option.bind_eq_bind, Option.bind_some,
      Option.pure_def] at hs
    split at hs
    · cases hs
    · obtain rfl := Option.some.inj hs
      exact hi.setReader hr
  | iterate =>
    simp only [listenerStep] at hs
    split at hs
    · next cursor visited before hreader =>
      have hok := hi.reader
      rw [hreader] at hok
      obtain ⟨hb, hv, ⟨rfl, hend⟩ | ⟨c, rfl, hne, hpre⟩⟩ := hok
      · rw [if_pos rfl] at hs
        obtain rfl := Option.some.inj hs
        exact hi.setReader ⟨hend, hv⟩
      · obtain ⟨x, hx, hr⟩ := hi.next_of_walking hb hpre
        obtain ⟨d, hd, hdn⟩ := next_eq_some.mp hx
        rw [if_neg (fun h => hne (Option.some.inj h))] at hs
        simp only [load_some, hd, hdn, Option.bind_eq_bind, Option.bind_some,
          Option.pure_def] at hs
        obtain rfl := Option.some.inj hs
        exact hi.setReader hr
    · cases hs

/-! ## 実行全体 -/

omit [DecidableEq ι] in
theorem listenerInv_initial (hc : Circular h list xs) :
    ListenerInv list (listenerInitial ι h xs) := by
  refine ⟨LinkedList.of_circular hc, fun _ => hc.prev_head, ?_, ?_, trivial⟩
  · intro i hne
    exact absurd rfl hne
  · intro i e st hpc
    cases hpc

/-- 走査を始める動作か、進める動作か。 -/
def ListenerAction.isReader : ListenerAction ι α → Bool
  | .begin | .iterate => true
  | .lock _ | .malloc _ _ | .store _ | .unlock _ => false

/-- 走査の始めに控えた列。 -/
def ListenerReader.before? : ListenerReader α → Option (List α)
  | .idle => none
  | .walking _ _ before | .done _ before => some before

/-- 走査の外の step は、走査の位置を変えない。 -/
theorem reader_of_not_isReader {a : ListenerAction ι α} (hs : listenerStep list s a = some s')
    (ha : a.isReader = false) : s'.reader = s.reader := by
  cases a with
  | begin | iterate => cases ha
  | lock i | unlock i =>
    simp only [listenerStep] at hs
    split at hs
    · rw [← Option.some.inj hs]
    · cases hs
  | malloc i entry =>
    simp only [listenerStep] at hs
    split at hs
    · split at hs
      · rw [← Option.some.inj hs]
      · split at hs
        · rw [← Option.some.inj hs]
        · cases hs
    · cases hs
  | store i =>
    simp only [listenerStep] at hs
    split at hs
    · obtain ⟨h', _, rfl⟩ := Option.map_eq_some_iff.mp hs
      rfl
    · cases hs

/-- 走査の最中の走査の step は、node を一つ訪れるか、走査を終える。 -/
theorem iterate_cases {a : ListenerAction ι α} {cursor : Option α} {visited before : List α}
    (hs : listenerStep list s a = some s') (ha : a.isReader = true)
    (hr : s.reader = .walking cursor visited before) :
    s'.reader = .done visited before ∨
      ∃ next x, s'.reader = .walking next (visited ++ [x]) before := by
  cases a with
  | lock _ | malloc _ _ | store _ | unlock _ => cases ha
  | begin =>
    simp only [listenerStep, hr] at hs
    cases hs
  | iterate =>
    simp only [listenerStep, hr] at hs
    split at hs
    · rw [← Option.some.inj hs]
      exact Or.inl rfl
    · obtain ⟨x, _, hs⟩ := Option.bind_eq_some_iff.mp hs
      obtain ⟨node, _, hs⟩ := Option.bind_eq_some_iff.mp hs
      rw [← Option.some.inj hs]
      exact Or.inr ⟨node.next, x, rfl⟩

/-- 走査の最中のどの step の後も、走査が終わるか、訪れた node が減らずに走査が続く。 -/
theorem walking_step {a : ListenerAction ι α} {cursor : Option α} {visited before : List α}
    (hs : listenerStep list s a = some s') (hr : s.reader = .walking cursor visited before) :
    s'.reader = .done visited before ∨
      ∃ next visited', s'.reader = .walking next visited' before ∧
        visited.length ≤ visited'.length ∧
        (a.isReader = true → visited.length < visited'.length) := by
  by_cases ha : a.isReader = true
  · refine (iterate_cases hs ha hr).imp_right ?_
    rintro ⟨next, x, hw⟩
    have hlt : visited.length < (visited ++ [x]).length := by
      rw [List.length_append]
      exact Nat.lt_succ_self _
    exact ⟨next, visited ++ [x], hw, Nat.le_of_lt hlt, fun _ => hlt⟩
  · refine Or.inr ⟨cursor, visited, ?_, Nat.le_refl _, fun h => absurd h ha⟩
    rw [reader_of_not_isReader hs (Bool.not_eq_true _ ▸ ha), hr]

/-- 走査の最中には、次の一 step がいつでもできる。 -/
theorem ListenerInv.iterate_isSome {cursor : Option α} {visited before : List α}
    (hi : ListenerInv list s) (hr : s.reader = .walking cursor visited before) :
    (listenerStep list s .iterate).isSome := by
  have hok := hi.reader
  rw [hr] at hok
  obtain ⟨-, -, ⟨rfl, -⟩ | ⟨c, rfl, hne, hpre⟩⟩ := hok
  · simp only [listenerStep, hr, if_true, Option.isSome_some]
  · have hmem : c ∈ list :: s.linked :=
      List.mem_cons_of_mem _ (hpre.subset (List.mem_append_right visited List.mem_cons_self))
    obtain ⟨d, hd⟩ := Option.isSome_iff_exists.mp (hi.isList.next.isSome hmem)
    simp only [listenerStep, hr, Option.some.injEq, hne, if_false, load_some, hd,
      Option.bind_eq_bind, Option.bind_some, Option.pure_def, Option.isSome_some]

/-- 走査の位置が控えている列は、最後に走査を始めた時の `linked` である。 -/
theorem exists_begin {s₀ : ListenerState ι α} (hidle : s₀.reader = .idle)
    {as : List (ListenerAction ι α)} {before : List α}
    (hrun : run (listenerStep list) s₀ as = some s) (hb : s.reader.before? = some before) :
    ∃ pre mid u, as = pre ++ .begin :: mid ∧ run (listenerStep list) s₀ pre = some u ∧
      before = u.linked ∧ ∀ a ∈ mid, a ≠ .begin := by
  induction as using List.reverseRecOn generalizing s with
  | nil =>
    obtain rfl := Option.some.inj hrun
    rw [hidle] at hb
    cases hb
  | append_singleton as a ih =>
    obtain ⟨u, hu, hs⟩ := run_snoc_eq_some.mp hrun
    by_cases ha : a = .begin
    · subst ha
      refine ⟨as, [], u, rfl, hu, ?_, fun a hm => by cases hm⟩
      simp only [listenerStep] at hs
      split at hs
      · cases hs
      · obtain ⟨node, _, hs⟩ := Option.bind_eq_some_iff.mp hs
        rw [← Option.some.inj hs] at hb
        exact (Option.some.inj hb).symm
    · -- 他の動作は、控えている列を変えない
      have hb' : u.reader.before? = some before := by
        by_cases hra : a.isReader = true
        · cases hur : u.reader with
          | walking cursor visited before' =>
            rcases iterate_cases hs hra hur with hs' | ⟨_, _, hs'⟩
            · rw [hs'] at hb
              exact hb
            · rw [hs'] at hb
              exact hb
          | idle | done _ _ =>
            cases a with
            | begin => exact absurd rfl ha
            | iterate =>
              simp only [listenerStep, hur] at hs
              cases hs
            | lock _ | malloc _ _ | store _ | unlock _ => cases hra
        · rw [← reader_of_not_isReader hs (Bool.not_eq_true _ ▸ hra)]
          exact hb
      obtain ⟨pre, mid, v, has, hv, hbv, hmid⟩ := ih hu hb'
      refine ⟨pre, mid ++ [a], v, by rw [has]; simp, hv, hbv, ?_⟩
      intro a' hm
      rcases List.mem_append.mp hm with hm | hm
      · exact hmid a' hm
      · rw [List.mem_singleton.mp hm]
        exact ha

/-! ## 走査は終わる -/

/-- 無限の実行の各 step で不変量が成り立つ。 -/
theorem listenerInv_forever {σ : Nat → ListenerState ι α} {act : Nat → ListenerAction ι α}
    (hi : ListenerInv list (σ 0)) (hstep : ∀ n, listenerStep list (σ n) (act n) = some (σ (n + 1)))
    (n : Nat) : ListenerInv list (σ n) := by
  induction n with
  | zero => exact hi
  | succ n ih => exact listenerInv_step ih (hstep n)

/-- つながる node が有限個で、走査の thread が動き続ければ、走査は終わる。 -/
theorem exists_done {σ : Nat → ListenerState ι α} {act : Nat → ListenerAction ι α}
    {cursor : Option α} {visited before : List α} {bound : Nat} (hi : ListenerInv list (σ 0))
    (hstep : ∀ n, listenerStep list (σ n) (act n) = some (σ (n + 1)))
    (hbound : ∀ n, (σ n).linked.length ≤ bound)
    (hfair : ∀ n, ∃ m, n ≤ m ∧ (act m).isReader = true)
    (hr : (σ 0).reader = .walking cursor visited before) :
    ∃ n visited', (σ n).reader = .done visited' before := by
  by_contra hno
  simp only [not_exists] at hno
  -- 走査の step のたびに `visited` は伸び、他の step では縮まない
  have hkeep : ∀ n m c v, n ≤ m → (σ n).reader = .walking c v before →
      ∃ c' v', (σ m).reader = .walking c' v' before ∧ v.length ≤ v'.length := by
    intro n m c v hnm hcv
    induction hnm with
    | refl => exact ⟨c, v, hcv, Nat.le_refl _⟩
    | @step m _ ih =>
      obtain ⟨c', v', hcv', hle⟩ := ih
      rcases walking_step (hstep m) hcv' with hd | ⟨c'', v'', hw, hle', -⟩
      · exact absurd hd (hno (m + 1) v')
      · exact ⟨c'', v'', hw, Nat.le_trans hle hle'⟩
  have hgrow : ∀ k, ∃ n c v, (σ n).reader = .walking c v before ∧ k ≤ v.length := by
    intro k
    induction k with
    | zero => exact ⟨0, cursor, visited, hr, Nat.zero_le _⟩
    | succ k ih =>
      obtain ⟨n, c, v, hcv, hk⟩ := ih
      obtain ⟨m, hnm, ha⟩ := hfair n
      obtain ⟨c', v', hcv', hle⟩ := hkeep n m c v hnm hcv
      rcases walking_step (hstep m) hcv' with hd | ⟨c'', v'', hw, -, hlt⟩
      · exact absurd hd (hno (m + 1) v')
      · exact ⟨m + 1, c'', v'', hw, Nat.lt_of_le_of_lt (Nat.le_trans hk hle) (hlt ha)⟩
  obtain ⟨n, c, v, hcv, hlen⟩ := hgrow (bound + 1)
  have hok := (listenerInv_forever hi hstep n).reader
  rw [hcv] at hok
  have hle := hok.2.1.length_le
  have := hbound n
  omega

omit [DecidableEq ι] in
/-- 走査が見ている番地は番兵か、つながれた node であり、その二つの link は list の中を指す。 -/
theorem ListenerInv.cursor_linked {cursor : Option α} {visited before : List α}
    (hi : ListenerInv list s) (hr : s.reader = .walking cursor visited before) :
    ∃ c n p, cursor = some c ∧ c ∈ list :: s.linked ∧ s.heap.next c = some n ∧
      n ∈ list :: s.linked ∧ (c ≠ list → s.heap.prev c = some p ∧ p ∈ list :: s.linked) := by
  have hok := hi.reader
  rw [hr] at hok
  obtain ⟨-, -, ⟨hc, -⟩ | ⟨c, hc, hne, zs, hzs⟩⟩ := hok
  · refine ⟨list, s.linked.headD list, list, hc, List.mem_cons_self, hi.isList.next.first, ?_,
      fun hne => absurd rfl hne⟩
    cases s.linked with
    | nil => exact List.mem_cons_self
    | cons x xs => exact List.mem_cons_of_mem _ List.mem_cons_self
  · have hl : LinkedList s.heap list (visited ++ c :: zs) := by
      rw [List.append_cons, hzs]
      exact hi.isList
    rw [← hzs]
    refine ⟨c, zs.headD list, visited.getLastD list, hc, by simp, hl.links.1, ?_,
      fun _ => ⟨hl.links.2, ?_⟩⟩
    · cases zs with
      | nil => exact List.mem_cons_self
      | cons z zs => simp
    · have hlast : visited.getLastD list ∈ list :: visited := List.getLastD_mem_cons
      rw [List.append_assoc]
      exact List.mem_append_left _ hlast

/--
**走査の最中に listener を足してよい。**

番兵の環から始まるどんな実行の後でも、走査が見ている番地は番兵か、つながれた node であり、
その二つの link はどちらも list の中を指していて、次の一 step はいつでもできる。
走査を終えた時に訪れていた node は、始めた時につながれていた node をその順に含み、
その後ろに後から足された node がいくつか続くだけで、どれも一度ずつである。
足される node が有限個で、走査の thread が動き続ければ、走査は終わる。
-/
theorem attach_while_iterating (hc : Circular h list xs) {as : List (ListenerAction ι α)}
    (hrun : run (listenerStep list) (listenerInitial ι h xs) as = some s) :
    (∀ cursor visited before, s.reader = .walking cursor visited before →
      (∃ c n p, cursor = some c ∧ c ∈ list :: s.linked ∧ s.heap.next c = some n ∧
        n ∈ list :: s.linked ∧ (c ≠ list → s.heap.prev c = some p ∧ p ∈ list :: s.linked)) ∧
      (listenerStep list s .iterate).isSome ∧
      ∀ (σ : Nat → ListenerState ι α) (act : Nat → ListenerAction ι α) (bound : Nat), σ 0 = s →
        (∀ n, listenerStep list (σ n) (act n) = some (σ (n + 1))) →
        (∀ n, (σ n).linked.length ≤ bound) → (∀ n, ∃ m, n ≤ m ∧ (act m).isReader = true) →
        ∃ n visited', (σ n).reader = .done visited' before) ∧
    (∀ visited before, s.reader = .done visited before →
      visited.Nodup ∧ visited <+: s.linked ∧ (∃ later, visited = before ++ later) ∧
      ∃ pre mid u, as = pre ++ .begin :: mid ∧
        run (listenerStep list) (listenerInitial ι h xs) pre = some u ∧ before = u.linked ∧
        ∀ a ∈ mid, a ≠ .begin) ∧
    (s.lock = none → Circular s.heap list s.linked) := by
  have hi : ListenerInv list s :=
    run_invariant (P := fun _ _ => True) (fun _ _ _ hi _ hs => listenerInv_step hi hs)
      (listenerInv_initial hc) (along_of_forall fun _ _ => trivial) hrun
  refine ⟨?_, ?_, ?_⟩
  · intro cursor visited before hr
    refine ⟨hi.cursor_linked hr, hi.iterate_isSome hr, ?_⟩
    intro σ act bound h0 hstep hbound hfair
    subst h0
    exact exists_done hi hstep hbound hfair hr
  · intro visited before hr
    have hok := hi.reader
    rw [hr] at hok
    obtain ⟨later, hlater⟩ := hok.1
    refine ⟨(List.nodup_cons.mp hi.isList.nodup).2.sublist hok.2.sublist, hok.2,
      ⟨later, hlater.symm⟩, exists_begin rfl hrun ?_⟩
    rw [hr]
    rfl
  · intro hlock
    refine hi.isList.circular (hi.tail ?_)
    intro i e hpc
    rw [hi.idle_of_unlocked hlock i] at hpc
    cases hpc

/-- 番地 0 の番兵だけがある memory。 -/
def emptyListeners : Heap Nat :=
  Function.update (fun _ => none) 0 (some { next := some 0, prev := some 0 })

/-- 一つ目の追加を終えてから走査を始め、二つ目の追加が最後の store の手前まで進む。 -/
def attachDuringWalk : List (ListenerAction Bool Nat) :=
  [.lock false, .malloc false (some 1)] ++ List.replicate 6 (.store false) ++
    [.unlock false, .begin, .lock true, .malloc true (some 2)] ++
    List.replicate 5 (.store true) ++ List.replicate 3 .iterate

theorem attach_while_iterating_attachDuringWalk :
    ∃ s, run (listenerStep 0) (listenerInitial Bool emptyListeners []) attachDuringWalk = some s ∧
      s.reader = .done [1, 2] [1] ∧ ∃ later, [1, 2] = [1] ++ later := by
  have hc : Circular emptyListeners 0 [] := ⟨rfl, rfl, List.nodup_singleton 0⟩
  have hr : (run (listenerStep 0) (listenerInitial Bool emptyListeners []) attachDuringWalk).map
      (fun s => s.reader) = some (.done [1, 2] [1]) := rfl
  obtain ⟨s, hs, hdone⟩ := Option.map_eq_some_iff.mp hr
  exact ⟨s, hs, hdone, ((attach_while_iterating hc hs).2.1 [1, 2] [1] hdone).2.2.1⟩

end Logmoko
