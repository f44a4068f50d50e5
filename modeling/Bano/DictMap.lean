import Bano.Lib.Run
import Bano.Dict

/-! Runs of dictionary operations against a plain map from keys to values. -/
namespace Bano

open Lib

inductive DictOp (β : Type) where
  | setOrAdd (junk : β) (k : U32) (v : β)
  | set (k : U32) (v : β)
  | del (k : U32)
  | get (k : U32)

def DictOp.key : DictOp β → U32
  | .setOrAdd _ k _ | .set k _ | .del k | .get k => k

def DictOp.apply : DictOp β → Dict β → Option (Dict β)
  | .setOrAdd junk k v, d => (banoDictSetOrAdd true true junk d k v).map Prod.snd
  | .set k v, d => (banoDictSet d k v).map Prod.snd
  | .del k, d => (banoDictDel d k).map Prod.snd
  | .get k, d => (banoDictGet d k).map fun _ => d

def DictOp.plain : DictOp β → (U32 → Option β) → U32 → Option β
  | .setOrAdd _ k v, m => Function.update m k (some v)
  | .set k v, m => if (m k).isSome then Function.update m k (some v) else m
  | .del k, m => Function.update m k none
  | .get _, m => m

def dictRun (n : Nat) (ops : List (DictOp β)) : Option (Dict β) :=
  run DictOp.apply ops (banoDictInitWithNlist true n).2

def mapRun (ops : List (DictOp β)) : U32 → Option β := ops.foldl (fun m op => op.plain m) fun _ => none

theorem banoDictInit_mapped (low : 1 ≤ n) (high : n ≤ 30) :
    Mapped (banoDictInitWithNlist true n : Int × Dict β).2 (fun _ => []) fun _ => none := by
  refine ⟨low,high,by simp [banoDictInitWithNlist,getNlist],?_,by simp,by simp,by simp⟩
  intro h l stored
  have member := List.mem_of_getElem? stored
  rw [List.eq_of_mem_replicate member]
  exact banoListInit_linked _

/-- Replacing the list of a key. -/
theorem Mapped.linked_set {d : Dict β} (mapped : Mapped d table m) (k : U32) (linked : Linked l xs) :
    ∀ h l', (d.lists.set (getHash d k) l)[h]? = some l' →
      Linked l' (Function.update table (getHash d k) xs h) := by
  intro h l' stored
  rw [List.getElem?_set] at stored
  by_cases here : h = getHash d k
  · subst here
    rw [if_pos rfl,if_pos (mapped.index k)] at stored
    obtain rfl := Option.some.inj stored
    rw [Function.update_self]
    exact linked
  · rw [if_neg (Ne.symm here)] at stored
    rw [Function.update_of_ne here]
    exact mapped.linked h l' stored

theorem banoDictAdd_unbound {d : Dict β} (mapped : Mapped d table m) (unbound : m k = none) (junk : β) :
    ∃ d' item, banoDictAdd true true junk d k = some (some d.pairs.next,d') ∧
      d'.log2Nlist = d.log2Nlist ∧ d'.pairs.cell d.pairs.next = some ⟨k,junk⟩ ∧
      Mapped d' (Function.update table (getHash d k) (table (getHash d k) ++ [(item,d.pairs.next)]))
        (Function.update m k (some junk)) := by
  obtain ⟨l,stored,linked⟩ := mapped.list k
  obtain ⟨l',added,linked',_⟩ := banoListAddTail_linked exact_right linked d.pairs.next
  have old : ∀ h, ∀ e ∈ table h, (d.pairs.alloc ⟨k,junk⟩).cell e.2 = d.pairs.cell e.2 ∧
      e.2 ≠ d.pairs.next := by
    intro h e member
    obtain ⟨pair,live,_⟩ := mapped.hashed h e member
    exact ⟨Heap.alloc_cell_other (Heap.next_ne live) _,Heap.next_ne live⟩
  have absent : ∀ h, ∀ e ∈ table h, ∀ v, d.pairs.cell e.2 ≠ some ⟨k,v⟩ := by
    intro h e member v cell
    obtain ⟨pair,live,hash⟩ := mapped.hashed h e member
    obtain rfl := Option.some.inj (live.symm.trans cell)
    have bound := (mapped.bound k v).mpr ⟨e,hash ▸ member,cell⟩
    simp [unbound] at bound
  have members : ∀ h e, e ∈ Function.update table (getHash d k)
      (table (getHash d k) ++ [(l.items.next,d.pairs.next)]) h ↔
      e ∈ table h ∨ h = getHash d k ∧ e = (l.items.next,d.pairs.next) := by
    intro h e
    by_cases here : h = getHash d k
    · subst here
      simp
    · simp [here]
  refine ⟨⟨d.lists.set (getHash d k) l',d.log2Nlist,d.pairs.alloc ⟨k,junk⟩⟩,l.items.next,
    by simp [banoDictAdd,stored,added],rfl,by simp,mapped.low,mapped.high,?_,mapped.linked_set k linked',?_,?_,?_⟩
  · simpa [getNlist] using mapped.count
  · intro h e member
    rcases (members h e).mp member with earlier | ⟨rfl,rfl⟩
    · rw [(old h e earlier).1]
      exact mapped.hashed h e earlier
    · exact ⟨_,Heap.alloc_cell_next _ _,rfl⟩
  · intro h e member c inside same
    have differs : ∀ e ∈ table h, ((d.pairs.alloc ⟨k,junk⟩).cell e.2).map DictPair.key ≠ some k := by
      intro e earlier key
      rw [(old h e earlier).1,Option.map_eq_some_iff] at key
      obtain ⟨pair,live,rfl⟩ := key
      exact absent h e earlier pair.val live
    have new : ((d.pairs.alloc ⟨k,junk⟩).cell d.pairs.next).map DictPair.key = some k := by simp
    rcases (members h e).mp member with earlier | ⟨_,rfl⟩ <;>
      rcases (members h c).mp inside with earlier' | ⟨_,rfl⟩
    · rw [(old h e earlier).1,(old h c earlier').1] at same
      exact mapped.distinct h e earlier c earlier' same
    · exact absurd (same.trans new) (differs e earlier)
    · exact absurd (same.symm.trans new) (differs c earlier')
    · rfl
  · intro k' v
    change _ ↔ ∃ e ∈ Function.update table (getHash d k) _ (getHash d k'), _
    simp only [members]
    by_cases other : k' = k
    · subst other
      rw [Function.update_self]
      constructor
      · rintro ⟨⟩
        exact ⟨_,.inr ⟨rfl,rfl⟩,by simp⟩
      · rintro ⟨e,earlier | ⟨_,rfl⟩,cell⟩
        · rw [(old _ e earlier).1] at cell
          exact absurd cell (absent _ e earlier v)
        · simpa using cell
    · rw [Function.update_of_ne other,mapped.bound]
      constructor
      · rintro ⟨e,earlier,cell⟩
        exact ⟨e,.inl earlier,by rw [(old _ e earlier).1]; exact cell⟩
      · rintro ⟨e,earlier | ⟨_,rfl⟩,cell⟩
        · rw [(old _ e earlier).1] at cell
          exact ⟨e,earlier,cell⟩
        · simp [Ne.symm other] at cell

theorem banoDictSetOrAdd_mapped {d : Dict β} (mapped : Mapped d table m) (junk : β) (k : U32) (v : β) :
    ∃ d' table', banoDictSetOrAdd true true junk d k v = some (0,d') ∧
      Mapped d' table' (Function.update m k (some v)) := by
  cases held : m k with
  | some w =>
    obtain ⟨d',result,mapped'⟩ := banoDictSet_bound mapped held v
    exact ⟨d',table,by simp [banoDictSetOrAdd,result],mapped'⟩
  | none =>
    have missed := banoDictSet_unbound mapped held v
    obtain ⟨d',item,added,size,cell,mapped'⟩ := banoDictAdd_unbound mapped held junk
    have hash : getHash d' k = getHash d k := by simp [getHash,size]
    have stored := mapped'.store (e := (item,d.pairs.next)) (k := k) (by simp [hash]) cell v
    rw [Function.update_idem] at stored
    exact ⟨_,_,by simp [banoDictSetOrAdd,missed,added,Heap.update_live cell],stored⟩

theorem banoDictDel_mapped {d : Dict β} (mapped : Mapped d table m) (k : U32) :
    ∃ err d' table', banoDictDel d k = some (err,d') ∧ (err ≠ 0 ↔ m k = none) ∧
      Mapped d' table' (Function.update m k none) := by
  rcases findPair_cases mapped k with ⟨⟨it,p⟩,member,v,cell,bound,found⟩ | ⟨unbound,missed⟩
  · obtain ⟨l,stored,linked⟩ := mapped.list k
    obtain ⟨before,rest,split⟩ := List.append_of_mem member
    rw [split] at linked
    obtain ⟨_,⟨back,item,backEq⟩,_⟩ := segment_append.mp linked.chain
    obtain ⟨l',removed,linked',_⟩ := banoListDel_linked exact_right linked item (.inl ⟨backEq,rfl⟩)
    have apart := nodup_apart linked.nodup
    have members : ∀ h e, e ∈ Function.update table (getHash d k) (before ++ rest) h ↔
        e ∈ table h ∧ ¬(h = getHash d k ∧ e = (it,p)) := by
      intro h e
      by_cases here : h = getHash d k
      · subst here
        rw [Function.update_self,split]
        simp only [List.mem_append,List.mem_cons]
        constructor
        · rintro (early | late)
          · exact ⟨.inl early,fun same => apart.1 e early (by rw [same.2])⟩
          · exact ⟨.inr (.inr late),fun same => apart.2.1 e late (by rw [same.2])⟩
        · tauto
      · simp [here]
    refine ⟨0,⟨d.lists.set (getHash d k) l',d.log2Nlist,d.pairs⟩,_,
      by simp [banoDictDel,found,stored,removed],by simp [bound],mapped.low,mapped.high,?_,
      mapped.linked_set k linked',?_,?_,?_⟩
    · simpa [getNlist] using mapped.count
    · exact fun h e inside => mapped.hashed h e ((members h e).mp inside).1
    · exact fun h e inside c inside' => mapped.distinct h e ((members h e).mp inside).1 c
        ((members h c).mp inside').1
    · intro k' v'
      change _ ↔ ∃ e ∈ Function.update table (getHash d k) (before ++ rest) (getHash d k'), _
      simp only [members]
      by_cases other : k' = k
      · subst other
        rw [Function.update_self]
        refine ⟨by simp,?_⟩
        rintro ⟨e,⟨inside,differs⟩,cell'⟩
        refine absurd ⟨rfl,?_⟩ differs
        exact mapped.distinct _ e inside (it,p) member (by rw [cell',cell]; rfl)
      · rw [Function.update_of_ne other,mapped.bound]
        constructor
        · rintro ⟨e,inside,cell'⟩
          refine ⟨e,⟨inside,?_⟩,cell'⟩
          rintro ⟨_,rfl⟩
          rw [cell] at cell'
          exact other (congrArg DictPair.key (Option.some.inj cell')).symm
        · rintro ⟨e,⟨inside,_⟩,cell'⟩
          exact ⟨e,inside,cell'⟩
  · refine ⟨-1,d,table,by simp [banoDictDel,missed],by simp [unbound],?_⟩
    rw [← unbound,Function.update_eq_self]
    exact mapped

theorem dictOp_mapped {d : Dict β} (mapped : Mapped d table m) (op : DictOp β) :
    ∃ d' table', op.apply d = some d' ∧ Mapped d' table' (op.plain m) := by
  cases op with
  | setOrAdd junk k v =>
    obtain ⟨d',table',result,mapped'⟩ := banoDictSetOrAdd_mapped mapped junk k v
    exact ⟨d',table',by simp [DictOp.apply,result],mapped'⟩
  | set k v =>
    cases held : m k with
    | some w =>
      obtain ⟨d',result,mapped'⟩ := banoDictSet_bound mapped held v
      exact ⟨d',table,by simp [DictOp.apply,result],by simpa [DictOp.plain,held] using mapped'⟩
    | none =>
      have result := banoDictSet_unbound mapped held v
      exact ⟨d,table,by simp [DictOp.apply,result],by simpa [DictOp.plain,held] using mapped⟩
  | del k =>
    obtain ⟨err,d',table',result,_,mapped'⟩ := banoDictDel_mapped mapped k
    exact ⟨d',table',by simp [DictOp.apply,result],mapped'⟩
  | get k =>
    refine ⟨d,table,?_,mapped⟩
    have read := valueOf_mapped mapped k
    unfold valueOf at read
    cases got : banoDictGet d k with
    | none => simp [got] at read
    | some p => simp [DictOp.apply,got]

theorem dictRun_mapped (low : 1 ≤ n) (high : n ≤ 30) (ops : List (DictOp β)) :
    ∃ d table, dictRun n ops = some d ∧ Mapped d table (mapRun ops) := by
  have runs : ∀ (ops : List (DictOp β)) d table m, Mapped d table m →
      ∃ d' table', run DictOp.apply ops d = some d' ∧
        Mapped d' table' (ops.foldl (fun m op => op.plain m) m) := by
    intro ops
    induction ops with
    | nil => exact fun d table m mapped => ⟨d,table,rfl,mapped⟩
    | cons op ops ih =>
      intro d table m mapped
      obtain ⟨d',table',result,mapped'⟩ := dictOp_mapped mapped op
      obtain ⟨d'',table'',ran,final⟩ := ih d' table' _ mapped'
      exact ⟨d'',table'',by simp [run,result,ran],final⟩
  exact runs ops _ _ _ (banoDictInit_mapped low high)

/-- The pairs met by following every list from its head, list by list. -/
def Contents (d : Dict β) (vs : List (DictPair β)) : Prop :=
  ∃ table : Nat → List (Ptr × Ptr),
    (∀ h l, d.lists[h]? = some l → Follows Link.next l.items l.head (table h)) ∧
    ((List.range (getNlist d)).flatMap table).map (fun e => d.pairs.cell e.2) = vs.map some

/-- A callback that reads the pair it is given and returns 0. -/
def returnsZero (d : Dict β) (f : σ → DictPair β → σ) (_ data : Ptr) (p : σ) : Option (Int × σ) :=
  (d.pairs.cell data).map fun pair => (0,f p pair)

structure FiniteMap (d : Dict β) (m : U32 → Option β) : Prop where
  index : ∀ k, getHash d k < d.lists.length
  get : ∀ k, valueOf d k = some (m k)
  set_fails : ∀ k v, m k = none ↔ banoDictSet d k v = some (-1,d)
  set_binds : ∀ k v, m k ≠ none → ∃ d', banoDictSet d k v = some (0,d') ∧ valueOf d' k = some (some v)
  frame : ∀ op : DictOp β, ∃ d', op.apply d = some d' ∧ ∀ k, k ≠ op.key → valueOf d' k = valueOf d k
  unique : ∃ vs, Contents d vs ∧ (vs.map DictPair.key).Nodup ∧ (∀ k v, m k = some v ↔ ⟨k,v⟩ ∈ vs) ∧
    ∀ {σ : Type} (f : σ → DictPair β → σ) (p : σ),
      banoDictForeach d (returnsZero d f) p = some (0,vs.foldl f p)

/-- The pairs of the lists of `hs`, in the order of bano_dict_foreach. -/
def pairsOf (d : Dict β) (table : Nat → List (Ptr × Ptr)) (hs : List Nat) : List (DictPair β) :=
  (hs.flatMap table).filterMap fun e => d.pairs.cell e.2

theorem pairsOf_cells {d : Dict β} (mapped : Mapped d table m) (hs : List Nat) :
    (hs.flatMap table).map (fun e => d.pairs.cell e.2) = (pairsOf d table hs).map some := by
  have live : ∀ e ∈ hs.flatMap table, ∃ pair, d.pairs.cell e.2 = some pair := by
    intro e member
    obtain ⟨h,_,inside⟩ := List.mem_flatMap.mp member
    exact (mapped.hashed h e inside).imp fun _ => And.left
  unfold pairsOf
  generalize hs.flatMap table = es at live
  induction es with
  | nil => rfl
  | cons e es ih =>
    obtain ⟨pair,cell⟩ := live e List.mem_cons_self
    have rest := ih fun c member => live c (List.mem_cons_of_mem _ member)
    simp only [List.filterMap_cons,List.map_cons,cell,rest]

theorem mem_pairsOf {d : Dict β} : pair ∈ pairsOf d table hs ↔
    ∃ h ∈ hs, ∃ e ∈ table h, d.pairs.cell e.2 = some pair := by
  simp only [pairsOf,List.mem_filterMap,List.mem_flatMap]
  constructor
  · rintro ⟨e,⟨h,listed,member⟩,cell⟩
    exact ⟨h,listed,e,member,cell⟩
  · rintro ⟨h,listed,e,member,cell⟩
    exact ⟨e,⟨h,listed,member⟩,cell⟩

/-- No key occurs twice: within one list the keys differ, and across lists their hashes do. -/
theorem pairsOf_nodup {d : Dict β} (mapped : Mapped d table m) (once : hs.Nodup)
    (within : ∀ h ∈ hs, h < getNlist d) : ((pairsOf d table hs).map DictPair.key).Nodup := by
  have listed : ∀ h ∈ hs, ((table h).map Prod.fst).Nodup := by
    intro h member
    have bound : h < d.lists.length := mapped.count ▸ within h member
    exact (mapped.linked h _ (List.getElem?_eq_getElem bound)).nodup
  have keys : (pairsOf d table hs).map (some ∘ DictPair.key) =
      (hs.flatMap table).map fun e => (d.pairs.cell e.2).map DictPair.key := by
    have cells := congrArg (List.map (Option.map DictPair.key)) (pairsOf_cells mapped hs)
    simpa [List.map_map,Function.comp_def] using cells.symm
  have distinct : ((hs.flatMap table).map fun e => (d.pairs.cell e.2).map DictPair.key).Nodup := by
    rw [List.map_flatMap,List.nodup_flatMap]
    constructor
    · intro h member
      refine List.Nodup.map_on ?_ (List.Nodup.of_map _ (listed h member))
      exact fun e inside c inside' => mapped.distinct h e inside c inside'
    · apply once.imp_of_mem
      intro h h' _ _ apart key inside inside'
      obtain ⟨e,member,rfl⟩ := List.mem_map.mp inside
      obtain ⟨c,member',same⟩ := List.mem_map.mp inside'
      obtain ⟨pair,live,hash⟩ := mapped.hashed h e member
      obtain ⟨pair',live',hash'⟩ := mapped.hashed h' c member'
      rw [live,live'] at same
      have key : pair'.key = pair.key := by simpa using same
      exact apart (hash.symm.trans (key ▸ hash'))
  rw [← keys,← List.map_map] at distinct
  exact distinct.of_map _

theorem visit_returnsZero {d : Dict β} (live : ∀ e ∈ xs, ∃ pair, d.pairs.cell e.2 = some pair)
    (f : σ → DictPair β → σ) (p : σ) :
    visit (returnsZero d f) xs p = some (0,(xs.filterMap fun e => d.pairs.cell e.2).foldl f p) := by
  induction xs generalizing p with
  | nil => rfl
  | cons e xs ih =>
    obtain ⟨pair,cell⟩ := live e List.mem_cons_self
    have rest := ih (fun c member => live c (List.mem_cons_of_mem _ member)) (f p pair)
    simp only [List.filterMap_cons,cell,List.foldl_cons,← rest]
    simp [visit,returnsZero,cell]

theorem banoDictForeach_mapped {d : Dict β} (mapped : Mapped d table m) (f : σ → DictPair β → σ) (p : σ) :
    banoDictForeach d (returnsZero d f) p =
      some (0,(pairsOf d table (List.range (getNlist d))).foldl f p) := by
  have loop : ∀ n i p, i + n = getNlist d → foreachList d (returnsZero d f) n i p =
      some (0,(pairsOf d table (List.range' i n)).foldl f p) := by
    intro n
    induction n with
    | zero => exact fun i p _ => rfl
    | succ n ih =>
      intro i p total
      have bound : i < d.lists.length := by rw [mapped.count]; omega
      have stored := List.getElem?_eq_getElem bound
      have live : ∀ e ∈ table i, ∃ pair, d.pairs.cell e.2 = some pair :=
        fun e member => (mapped.hashed i e member).imp fun _ => And.left
      have here := visit_returnsZero live f p
      rw [← banoListForeach_visit (mapped.linked i _ stored)] at here
      simp only [foreachList,stored,here,Option.bind_eq_bind,Option.bind_some]
      rw [if_neg (by simp),ih (i + 1) _ (by omega),List.range'_succ]
      simp [pairsOf]
  rw [banoDictForeach,loop _ _ _ (Nat.zero_add _),List.range_eq_range']

theorem finiteMap_of_mapped {d : Dict β} (mapped : Mapped d table m) : FiniteMap d m := by
  have within : ∀ h ∈ List.range (getNlist d), h < getNlist d := fun h => List.mem_range.mp
  refine ⟨mapped.index,valueOf_mapped mapped,?_,?_,?_,?_⟩
  · intro k v
    refine ⟨fun unbound => banoDictSet_unbound mapped unbound v,fun failed => ?_⟩
    by_contra held
    obtain ⟨w,bound⟩ := Option.ne_none_iff_exists'.mp held
    obtain ⟨d',result,_⟩ := banoDictSet_bound mapped bound v
    rw [failed] at result
    simp at result
  · intro k v held
    obtain ⟨w,bound⟩ := Option.ne_none_iff_exists'.mp held
    obtain ⟨d',result,mapped'⟩ := banoDictSet_bound mapped bound v
    exact ⟨d',result,by rw [valueOf_mapped mapped',Function.update_self]⟩
  · intro op
    obtain ⟨d',table',result,mapped'⟩ := dictOp_mapped mapped op
    refine ⟨d',result,fun k other => ?_⟩
    rw [valueOf_mapped mapped',valueOf_mapped mapped]
    cases op with
    | setOrAdd junk k' v => exact congrArg some (Function.update_of_ne other _ _)
    | set k' v =>
      cases held : m k' with
      | some w =>
        have same : Function.update m k' (some v) k = m k := Function.update_of_ne other _ _
        simpa [DictOp.plain,held] using same
      | none => simp [DictOp.plain,held]
    | del k' => exact congrArg some (Function.update_of_ne other _ _)
    | get k' => rfl
  · refine ⟨pairsOf d table (List.range (getNlist d)),⟨table,?_,pairsOf_cells mapped _⟩,
      pairsOf_nodup mapped List.nodup_range within,?_,fun f p => banoDictForeach_mapped mapped f p⟩
    · intro h l stored
      have linked := mapped.linked h l stored
      rw [linked.head]
      exact segment_follows_next linked.chain
    · intro k v
      rw [mapped.bound,mem_pairsOf]
      constructor
      · rintro ⟨e,member,cell⟩
        exact ⟨_,List.mem_range.mpr (mapped.count ▸ mapped.index k),e,member,cell⟩
      · rintro ⟨h,_,e,member,cell⟩
        obtain ⟨pair,live,hash⟩ := mapped.hashed h e member
        obtain rfl := Option.some.inj (live.symm.trans cell)
        exact ⟨e,by rw [hash]; exact member,cell⟩

/-- Whatever the operations were, the dictionary is the map they define. -/
theorem dictRun_finiteMap (low : 1 ≤ n) (high : n ≤ 30) (ops : List (DictOp β)) :
    ∃ d, dictRun n ops = some d ∧ FiniteMap d (mapRun ops) := by
  obtain ⟨d,table,ran,mapped⟩ := dictRun_mapped low high ops
  exact ⟨d,ran,finiteMap_of_mapped mapped⟩

def defaultOps : List (DictOp Char) := [.setOrAdd 'j' 7 'a',.setOrAdd 'j' 8 'b',.set 7 'c',.del 8]

theorem dictRun_finiteMap_default : ∃ d, dictRun 3 defaultOps = some d ∧ FiniteMap d (mapRun defaultOps) :=
  dictRun_finiteMap (by decide) (by decide) defaultOps

end Bano
