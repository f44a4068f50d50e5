import Bano.DictMap

/-! Dictionaries whose keys may occur more than once: bano_dict_add does not look
for the key, and every search stops at the first pair that has it. -/
namespace Bano

open Lib

/-- `es` are the pairs with their keys and values, in the order in which they were added. -/
structure Filed (d : Dict β) (es : List (Ptr × DictPair β)) : Prop where
  low : 1 ≤ d.log2Nlist
  high : d.log2Nlist ≤ 30
  count : d.lists.length = getNlist d
  lists : ∀ h l, d.lists[h]? = some l → ∃ xs, Linked l xs ∧
    xs.map Prod.snd = (es.filter fun e => getHash d e.2.key = h).map Prod.fst
  cell : ∀ e ∈ es, d.pairs.cell e.1 = some e.2
  apart : (es.map Prod.fst).Nodup

/-- The entry that a search for the key meets first. -/
def entryOf (es : List (Ptr × DictPair β)) (k : U32) : Option (Ptr × DictPair β) := es.find? fun e => e.2.key = k

theorem entryOf_append (es fs : List (Ptr × DictPair β)) (k : U32) :
    entryOf (es ++ fs) k = (entryOf es k).or (entryOf fs k) := List.find?_append

theorem banoDictInit_filed : Filed (banoDictInit true : Int × Dict β).2 [] := by
  refine ⟨show 1 ≤
    3 by decide,show 3 ≤ 30 by decide,by simp [banoDictInit,banoDictInitWithNlist,getNlist],?_,by simp,List.nodup_nil⟩
  intro h l stored
  have member := List.mem_of_getElem? stored
  rw [List.eq_of_mem_replicate member]
  exact ⟨[],banoListInit_linked _,rfl⟩

theorem Filed.index {d : Dict β} (filed : Filed d es) (k : U32) : getHash d k < d.lists.length := by
  have low := filed.low
  have high := filed.high
  rw [filed.count,getNlist,Nat.one_shiftLeft]
  exact hash_lt k low (by omega)

theorem Filed.list {d : Dict β} (filed : Filed d es) (k : U32) :
    ∃ l xs, d.lists[getHash d k]? = some l ∧ Linked l xs ∧
    xs.map Prod.snd = (es.filter fun e => getHash d e.2.key = getHash d k).map Prod.fst := by
  have stored := List.getElem?_eq_getElem (filed.index k)
  obtain ⟨xs,linked,held⟩ := filed.lists _ _ stored
  exact ⟨_,xs,stored,linked,held⟩

/-- The items of a list around the first of them that carries an entry of the key. -/
theorem visit_findPairItem_filed {d : Dict β} {xs : List (Ptr × Ptr)} {es : List (Ptr × DictPair β)}
    (held : xs.map Prod.snd = es.map Prod.fst) (cell : ∀ e ∈ es, d.pairs.cell e.1 = some e.2) (k : U32) :
    (∃ before it p rest, xs = before ++ (it,p) :: rest ∧ (entryOf es k).map Prod.fst = some p ∧
      (before ++ rest).map Prod.snd = (es.eraseP fun e => e.2.key = k).map Prod.fst ∧
      visit (findPairItem d k) xs none = some (-1,some it)) ∨
    entryOf es k = none ∧ visit (findPairItem d k) xs none = some (0,none) := by
  induction es generalizing xs with
  | nil =>
    obtain rfl := List.map_eq_nil_iff.mp held
    exact .inr ⟨rfl,rfl⟩
  | cons e es ih =>
    obtain ⟨⟨it,p⟩,xs,rfl,rfl,later⟩ := List.map_eq_cons_iff.mp held
    have here := cell e List.mem_cons_self
    by_cases own : e.2.key = k
    · refine .inl ⟨[],it,_,xs,rfl,?_,?_,?_⟩
      · simp [entryOf,own]
      · simpa [own] using later
      · simp [visit,findPairItem,here,own]
    · have skip : visit (findPairItem d k) ((it,e.1) :: xs) none = visit (findPairItem d k) xs none := by
        simp [visit,findPairItem,here,Ne.symm own]
      have next : entryOf (e :: es) k = entryOf es k := List.find?_cons_of_neg (by simpa using own)
      have kept : (e :: es).eraseP (fun e => e.2.key = k) = e :: es.eraseP fun e => e.2.key = k :=
        List.eraseP_cons_of_neg (by simpa using own)
      rw [skip,next,kept]
      rcases ih later fun e member => cell e (List.mem_cons_of_mem _ member) with
        ⟨before,it',p,rest,rfl,found,erased,stopped⟩ | passed
      · exact .inl ⟨(it,e.1) :: before,it',p,rest,rfl,found,congrArg (e.1 :: ·) erased,stopped⟩
      · exact .inr passed

/-- Only the list of the hash can hold the key. -/
theorem entryOf_bucket (d : Dict β) (es : List (Ptr × DictPair β)) (k : U32) :
    entryOf (es.filter fun e => getHash d e.2.key = getHash d k) k = entryOf es k := by
  rw [entryOf,List.find?_filter]
  congr 1
  funext e
  by_cases own : e.2.key = k <;> simp [own]

theorem banoDictGet_filed {d : Dict β} (filed : Filed d es) (k : U32) :
    banoDictGet d k = some ((entryOf es k).map Prod.fst) := by
  obtain ⟨l,xs,stored,linked,held⟩ := filed.list k
  have cell : ∀ e ∈ es.filter fun e => getHash d e.2.key = getHash d k, d.pairs.cell e.1 = some e.2 :=
    fun e member => filed.cell e (List.mem_of_mem_filter member)
  rcases visit_findPairItem_filed held cell k with ⟨before,it,p,rest,rfl,found,_,stopped⟩ | ⟨absent,passed⟩
  · rw [entryOf_bucket] at found
    obtain ⟨i,item,data⟩ := linked.live (e := (it,p)) (by simp)
    simp [banoDictGet,findPair,stored,banoListForeach_visit linked,stopped,item,data,found]
  · rw [entryOf_bucket] at absent
    simp [banoDictGet,findPair,stored,banoListForeach_visit linked,passed,absent]

theorem valueOf_filed {d : Dict β} (filed : Filed d es) (k : U32) :
    valueOf d k = some ((entryOf es k).map fun e => e.2.val) := by
  cases found : entryOf es k with
  | none => simp [valueOf,banoDictGet_filed filed,found]
  | some e => simp [valueOf,banoDictGet_filed filed,found,filed.cell e (List.mem_of_find?_eq_some found)]

/-- What is erased was filtered out. -/
theorem filter_eraseP {q r : α → Bool} (apart : ∀ e, r e = true → q e = false) (es : List α) :
    (es.eraseP r).filter q = es.filter q := by
  induction es with
  | nil => rfl
  | cons e es ih =>
    cases own : r e with
    | true => simp [List.eraseP_cons_of_pos own,apart e own]
    | false => simp [List.eraseP_cons_of_neg (by simp [own] : ¬r e = true),List.filter_cons,ih]

/-- Replacing the list of a key, and with it what is filed. -/
theorem Filed.replace {d : Dict β} (filed : Filed d es) (k : U32) (linked : Linked l xs)
    {fs : List (Ptr × DictPair β)}
    (held : xs.map Prod.snd = (fs.filter fun e => getHash d e.2.key = getHash d k).map Prod.fst)
    (others : ∀ h, h ≠ getHash d k → fs.filter (fun e => getHash d e.2.key = h) =
      es.filter fun e => getHash d e.2.key = h) :
    ∀ h l', (d.lists.set (getHash d k) l)[h]? = some l' → ∃ xs, Linked l' xs ∧
      xs.map Prod.snd = (fs.filter fun e => getHash d e.2.key = h).map Prod.fst := by
  intro h l' stored
  rw [List.getElem?_set] at stored
  by_cases here : getHash d k = h
  · subst here
    rw [if_pos rfl,if_pos (filed.index k)] at stored
    obtain rfl := Option.some.inj stored
    exact ⟨xs,linked,held⟩
  · rw [if_neg here] at stored
    obtain ⟨ys,linked',held'⟩ := filed.lists h l' stored
    exact ⟨ys,linked',held'.trans (congrArg _ (others h (Ne.symm here)).symm)⟩

/-- The new entry is the last, whether or not the key is there already. -/
theorem banoDictAdd_filed {d : Dict β} (filed : Filed d es) (junk : β) (k : U32) :
    ∃ d', banoDictAdd true true junk d k = some (some d.pairs.next,d') ∧
      Filed d' (es ++ [(d.pairs.next,⟨k,junk⟩)]) := by
  obtain ⟨l,xs,stored,linked,held⟩ := filed.list k
  obtain ⟨l',added,linked',_⟩ := banoListAddTail_linked exact_right linked d.pairs.next
  have fresh : ∀ e ∈ es, e.1 ≠ d.pairs.next := fun e member => Heap.next_ne (filed.cell e member)
  refine ⟨{ d with lists := d.lists.set (getHash d k) l', pairs := d.pairs.alloc ⟨k,junk⟩ },
    by simp [banoDictAdd,stored,added],filed.low,filed.high,?_,?_,?_,?_⟩
  · simpa [getNlist] using filed.count
  · refine filed.replace k linked' ?_ fun h other => ?_
    · simp [held,List.filter_append]
    · simp [List.filter_append,Ne.symm other]
  · intro e member
    rcases List.mem_append.mp member with old | new
    · exact (Heap.alloc_cell_other (fresh e old) _).trans (filed.cell e old)
    · obtain rfl := List.mem_singleton.mp new
      exact Heap.alloc_cell_next _ _
  · rw [List.map_append,List.nodup_append]
    refine ⟨filed.apart,List.nodup_singleton _,?_⟩
    intro p old q new same
    obtain ⟨e,member,rfl⟩ := List.mem_map.mp old
    exact fresh e member (same.trans (List.mem_singleton.mp new))

theorem banoDictAdd_fails {d : Dict β} (filed : Filed d es) (fails : (mallocPair && mallocItem) = false)
    (junk : β) (k : U32) :
    banoDictAdd mallocPair mallocItem junk d k = some (none,d) := by
  obtain ⟨l,_,stored,_⟩ := filed.list k
  cases mallocPair with
  | false => simp [banoDictAdd]
  | true => simp [banoDictAdd,stored,banoListAddTail,show mallocItem = false from fails]

/-- Storing a value in the pair that was filed last. -/
theorem Filed.store {d : Dict β} (filed : Filed d (es ++ [(p,⟨k,v⟩)])) (w : β) :
    d.pairs.update p (fun pair => { pair with val := w }) =
      some (d.pairs.modify p fun pair => { pair with val := w }) ∧
      Filed { d with pairs := d.pairs.modify p fun pair => { pair with val := w } } (es ++ [(p,⟨k,w⟩)]) := by
  have last : d.pairs.cell p = some ⟨k,v⟩ := filed.cell (p,⟨k,v⟩) (by simp)
  have apart : ∀ e ∈ es, e.1 ≠ p := by
    intro e member same
    have nodup := filed.apart
    rw [List.map_append,List.nodup_append] at nodup
    exact nodup.2.2 _ (List.mem_map_of_mem member) p (by simp) same
  refine ⟨Heap.update_live last _,filed.low,filed.high,filed.count,?_,?_,by simpa using filed.apart⟩
  · intro h l stored
    obtain ⟨xs,linked,held⟩ := filed.lists h l stored
    refine ⟨xs,linked,held.trans ?_⟩
    have same : ∀ v, ((es ++ [(p,(⟨k,v⟩ : DictPair β))]).filter fun e => getHash d e.2.key = h).map Prod.fst =
        (es.filter fun e => getHash d e.2.key = h).map Prod.fst ++ if getHash d k = h then [p] else [] := by
      intro v
      by_cases here : getHash d k = h <;> simp [List.filter_append,here]
    exact (same v).trans (same w).symm
  · intro e member
    rcases List.mem_append.mp member with old | new
    · exact (Heap.modify_cell_other (apart e old) _ _).trans (filed.cell e (by simp [old]))
    · obtain rfl := List.mem_singleton.mp new
      simp [last]

theorem banoDictDel_filed {d : Dict β} (filed : Filed d es) (held : entryOf es k ≠ none) :
    ∃ d', banoDictDel d k = some (0,d') ∧ Filed d' (es.eraseP fun e => e.2.key = k) := by
  obtain ⟨l,xs,stored,linked,bucket⟩ := filed.list k
  have cell : ∀ e ∈ es.filter fun e => getHash d e.2.key = getHash d k, d.pairs.cell e.1 = some e.2 :=
    fun e member => filed.cell e (List.mem_of_mem_filter member)
  rcases visit_findPairItem_filed bucket cell k with ⟨before,it,p,rest,rfl,_,erased,stopped⟩ | ⟨absent,_⟩
  · obtain ⟨_,⟨back,item,backEq⟩,_⟩ := segment_append.mp linked.chain
    obtain ⟨l',removed,linked',_⟩ := banoListDel_linked exact_right linked item (.inl ⟨backEq,rfl⟩)
    have smaller := List.eraseP_sublist (p := fun e : Ptr × DictPair β => e.2.key = k) (l := es)
    refine ⟨{ d with lists := d.lists.set (getHash d k) l' },?_,filed.low,filed.high,?_,?_,?_,?_⟩
    · simp [banoDictDel,findPair,stored,banoListForeach_visit linked,stopped,removed]
    · simpa [getNlist] using filed.count
    · refine filed.replace k linked' ?_ fun h other => ?_
      · rw [erased,List.eraseP_filter]
        congr 2
        congr 1
        funext e
        by_cases own : e.2.key = k <;> simp [own]
      · exact filter_eraseP (fun e own => by simpa [of_decide_eq_true own] using Ne.symm other) es
    · exact fun e member => filed.cell e (smaller.subset member)
    · exact filed.apart.sublist (smaller.map _)
  · rw [entryOf_bucket] at absent
    exact absurd absent held

/-- How a traversal ends that stops at the first entry it looks for. -/
def searched : Option (Ptr × DictPair β) → Int × Option Ptr
  | none => (0,none)
  | some e => (-1,some e.1)

/-- A callback that stops at the first pair whose value has a property. -/
def Searches (d : Dict β) (pred : β → Bool) (f : Ptr → Ptr → Option Ptr → Option (Int × Option Ptr)) : Prop :=
  ∀ it p found pair, d.pairs.cell p = some pair →
    f it p found = some (if pred pair.val then (-1,some p) else (0,found))

theorem Searches.visit {d : Dict β} (searches : Searches d pred f) {xs : List (Ptr × Ptr)}
    {es : List (Ptr × DictPair β)}
    (held : xs.map Prod.snd = es.map Prod.fst) (cell : ∀ e ∈ es, d.pairs.cell e.1 = some e.2) :
    visit f xs none = some (searched (es.find? fun e => pred e.2.val)) := by
  induction es generalizing xs with
  | nil =>
    obtain rfl := List.map_eq_nil_iff.mp held
    rfl
  | cons e es ih =>
    obtain ⟨⟨it,p⟩,xs,rfl,rfl,later⟩ := List.map_eq_cons_iff.mp held
    have called := searches it e.1 none e.2 (cell e List.mem_cons_self)
    cases own : pred e.2.val with
    | true => simp [Bano.visit,called,own,searched]
    | false =>
      have rest := ih later fun e member => cell e (List.mem_cons_of_mem _ member)
      simp [Bano.visit,called,own,rest]

/-- The lists are searched one after the other. -/
theorem Searches.foreachList {d : Dict β} (searches : Searches d pred f) (filed : Filed d es) (n i : Nat)
    (total : i + n = getNlist d) : foreachList d f n i none = some (searched
      (((List.range' i n).flatMap fun h => es.filter fun e => getHash d e.2.key = h).find?
        fun e => pred e.2.val)) := by
  induction n generalizing i with
  | zero => rfl
  | succ n ih =>
    have bound : i < d.lists.length := by rw [filed.count]; omega
    have stored := List.getElem?_eq_getElem bound
    obtain ⟨xs,linked,held⟩ := filed.lists _ _ stored
    have here := searches.visit held fun e member => filed.cell e (List.mem_of_mem_filter member)
    rw [← banoListForeach_visit linked] at here
    have rest := ih (i + 1) (by omega)
    rw [List.range'_succ,List.flatMap_cons,List.find?_append]
    cases found : (es.filter fun e => getHash d e.2.key = i).find? fun e => pred e.2.val with
    | none => simp [Bano.foreachList,stored,here,found,searched,rest]
    | some e => simp [Bano.foreachList,stored,here,found,searched]

theorem find?_members {es : List α} {q r : α → Bool} (same : ∀ e ∈ es, q e = r e) : es.find? q = es.find? r := by
  induction es with
  | nil => rfl
  | cons e es ih =>
    rw [List.find?_cons,List.find?_cons,same e List.mem_cons_self,
      ih fun e member => same e (List.mem_cons_of_mem _ member)]

/-- Nothing but `a` gives anything. -/
theorem findSome?_only {xs : List α} {f : α → Option γ} (member : a ∈ xs)
    (others : ∀ x ∈ xs, x ≠ a → f x = none) :
    xs.findSome? f = f a := by
  induction xs with
  | nil => exact nomatch member
  | cons x xs ih =>
    by_cases own : x = a
    · subst own
      cases found : f x with
      | some y => simp [found]
      | none =>
        have rest : xs.findSome? f = none := by
          rw [List.findSome?_eq_none_iff]
          intro y inside
          by_cases same : y = x
          · rw [same,found]
          · exact others y (List.mem_cons_of_mem _ inside) same
        simp [found,rest]
    · have later := (List.mem_cons.mp member).resolve_left (Ne.symm own)
      rw [List.findSome?_cons,others x List.mem_cons_self own]
      exact ih later fun y inside => others y (List.mem_cons_of_mem _ inside)

/-- A search of all lists finds the entry that was added first, if the entries it looks for share their list. -/
theorem Searches.foreach {d : Dict β} (searches : Searches d pred f) (filed : Filed d es) (k : U32)
    (together : ∀ e ∈ es, pred e.2.val = true → getHash d e.2.key = getHash d k) :
    banoDictForeach d f none = some (searched (es.find? fun e => pred e.2.val)) := by
  rw [banoDictForeach,searches.foreachList filed _ _ (Nat.zero_add _)]
  congr 2
  have inside : getHash d k ∈ List.range' 0 (getNlist d) := by
    have bound := filed.index k
    rw [filed.count] at bound
    simpa using bound
  rw [List.find?_flatMap,findSome?_only inside]
  · rw [List.find?_filter]
    refine find?_members fun e member => ?_
    cases own : pred e.2.val with
    | true => simp [together e member own]
    | false => simp
  · intro h _ other
    rw [List.find?_eq_none]
    intro e member own
    obtain ⟨listed,here⟩ := List.mem_filter.mp member
    exact other ((of_decide_eq_true here).symm.trans (together e listed own))

end Bano
