import Bano.ParserTermination
import Bano.Grammar

/-! Who releases the mapped buffers. The buffers a parse has mapped and not released are those it
has added to `bufs`; a failing load releases the top-level buffer with them, and then again. -/
namespace Bano

open Lib Relation

/-- `more` are the buffers that a call has mapped and that are not released. -/
structure Adds (parser parser' : BanoParser) (more : List Ptr) : Prop where
  keeps : Keeps parser parser'
  bufs : parser'.bufs = parser.bufs ++ more
  nodup : more.Nodup
  fresh : ∀ p ∈ more, parser.mapped.next ≤ p
  live : ∀ p, parser.mapped.next ≤ p → ((∃ data, parser'.mapped.cell p = some data) ↔ p ∈ more)

theorem Adds.rfl : Adds parser parser [] where
  keeps := .rfl
  bufs := (List.append_nil _).symm
  nodup := List.nodup_nil
  fresh := by simp
  live := by
    intro p above
    simp [parser.mapped.fresh p above]

theorem Adds.trans (one : Adds a b more) (other : Adds b c more') : Adds a c (more ++ more') where
  keeps := one.keeps.trans other.keeps
  bufs := by rw [other.bufs,one.bufs,List.append_assoc]
  nodup := by
    refine List.nodup_append.mpr ⟨one.nodup,other.nodup,?_⟩
    intro p inOne q inOther same
    subst same
    obtain ⟨_,live⟩ := (one.live p (one.fresh p inOne)).mpr inOne
    exact Nat.not_le_of_lt (Heap.lt_next live) (other.fresh p inOther)
  fresh := by
    intro p member
    rcases List.mem_append.mp member with inOne | inOther
    · exact one.fresh p inOne
    · exact Nat.le_trans one.keeps.next (other.fresh p inOther)
  live := by
    intro p above
    rw [List.mem_append]
    by_cases below : p < b.mapped.next
    · have notOther : p ∉ more' := fun member => Nat.not_le_of_lt below (other.fresh p member)
      simp only [other.keeps.cell p below,one.live p above,notOther,or_false]
    · have beyond : b.mapped.next ≤ p := Nat.le_of_not_lt below
      have notOne : p ∉ more := by
        intro member
        obtain ⟨_,live⟩ := (one.live p above).mpr member
        exact below (Heap.lt_next live)
      simp only [other.live p beyond,notOne,false_or]

/-- The strings of the struct lie in a buffer that is held. -/
def Backed (parser : BanoParser) (strukt : ParserStruct) : Prop :=
  ∃ p data, p ∈ parser.bufs ∧ parser.mapped.cell p = some data ∧ strukt.Inside p data.length

theorem Backed.mono (held : Backed parser strukt) (adds : Adds parser parser' more) : Backed parser' strukt := by
  obtain ⟨p,data,member,live,inside⟩ := held
  refine ⟨p,data,?_,?_,inside⟩
  · rw [adds.bufs]
    exact List.mem_append_left _ member
  · rw [adds.keeps.cell p (Heap.lt_next live)]
    exact live

/-- What a call that succeeds has done: every buffer it mapped is held, and the strings of the
structs it added lie in these or in the buffer it was called on. -/
structure Gains (parser parser' : BanoParser) (buf : Ptr) (size : Nat) (more : List Ptr) : Prop where
  all : ∀ p, parser.mapped.next ≤ p → p < parser'.mapped.next → p ∈ more
  structs : ∃ added, parser'.structs = parser.structs ++ added ∧
    ∀ strukt ∈ added, strukt.Inside buf size ∨ Backed parser' strukt

theorem Gains.rfl : Gains parser parser buf size [] where
  all := by omega
  structs := ⟨[],(List.append_nil _).symm,by simp⟩

theorem Gains.trans (one : Gains a b buf size more) (other : Gains b c buf size more')
    (later : Adds b c more') : Gains a c buf size (more ++ more') where
  all := by
    intro p above below
    rcases Nat.lt_or_ge p b.mapped.next with here | there
    · exact List.mem_append_left _ (one.all p above here)
    · exact List.mem_append_right _ (other.all p there below)
  structs := by
    obtain ⟨added,structs,places⟩ := one.structs
    obtain ⟨added',structs',places'⟩ := other.structs
    refine ⟨added ++ added',by rw [structs',structs,List.append_assoc],?_⟩
    intro strukt member
    rcases List.mem_append.mp member with before | after
    · exact (places strukt before).imp_right (·.mono later)
    · exact places' strukt after

/-- What a call on `size` bytes of `buf` leaves. -/
def Leaves (parser : BanoParser) (buf : Ptr) (size : Nat) (r : Option Nat) (parser' : BanoParser) : Prop :=
  ∃ more, Adds parser parser' more ∧ (r ≠ none → Gains parser parser' buf size more)

theorem leaves_rfl (r : Option Nat) : Leaves parser buf size r parser := ⟨[],.rfl,fun _ => .rfl⟩

theorem leaves_struct {strukt : ParserStruct} (inside : strukt.Inside buf size) (r : Option Nat) :
    Leaves parser buf size r { parser with structs := parser.structs ++ [strukt] } := by
  refine ⟨[],?_,fun _ => ?_⟩
  · exact ⟨⟨rfl,Nat.le_refl _,fun _ _ => rfl⟩,(List.append_nil _).symm,List.nodup_nil,by simp,Adds.rfl.live⟩
  · constructor
    · intro p above below
      exact absurd below (Nat.not_lt.mpr above)
    · refine ⟨[strukt],rfl,fun other member => .inl ?_⟩
      obtain rfl := List.mem_singleton.mp member
      exact inside

/-- An included buffer joins those held when the call on it succeeds, and is released when it fails. -/
theorem Leaves.included {r : Option Nat}
    (left : Leaves (mapFile parser data) parser.mapped.next data.length r parser')
    (buf : Ptr) (size : Nat) : match r with
      | some _ => ∀ n, Leaves parser buf size (some n) { parser' with bufs := parser'.bufs ++ [parser.mapped.next] }
      | none => ∃ parser'', freeBuf parser' parser.mapped.next = .done parser'' ∧
      Leaves parser buf size none parser'' := by
  obtain ⟨more,adds,gains⟩ := left
  have mapped : parser'.mapped.cell parser.mapped.next = some data := by
    rw [adds.keeps.cell _ (Nat.lt_succ_self _)]
    exact Heap.alloc_cell_next _ _
  have before := (mapFile_keeps parser data).trans adds.keeps
  have above : ∀ p ∈ more, parser.mapped.next < p := adds.fresh
  have notIn : parser.mapped.next ∉ more := fun member => Nat.lt_irrefl _ (above _ member)
  cases r with
  | some _ =>
    intro n
    refine ⟨more ++ [parser.mapped.next],?_,fun _ => ?_⟩
    · constructor
      · exact ⟨before.topDir,before.next,before.cell⟩
      · show parser'.bufs ++ [parser.mapped.next] = _
        rw [adds.bufs,List.append_assoc]
        rfl
      · refine List.nodup_append.mpr ⟨adds.nodup,List.nodup_singleton _,?_⟩
        rintro p inMore q inLast rfl
        exact notIn (List.mem_singleton.mp inLast ▸ inMore)
      · intro p member
        rcases List.mem_append.mp member with inMore | inLast
        · exact Nat.le_of_lt (above p inMore)
        · exact Nat.le_of_eq (List.mem_singleton.mp inLast).symm
      · intro p bound
        rcases Nat.lt_or_eq_of_le bound with lt | rfl
        · have apart : p ≠ parser.mapped.next := Nat.ne_of_gt lt
          simpa [apart] using adds.live p lt
        · simp [mapped]
    · obtain ⟨all,added,structs,places⟩ := gains (by simp)
      constructor
      · intro p bound below
        rcases Nat.lt_or_eq_of_le bound with lt | rfl
        · exact List.mem_append_left _ (all p lt below)
        · exact List.mem_append_right _ (List.mem_singleton_self _)
      · refine ⟨added,structs,fun strukt member => .inr ?_⟩
        rcases places strukt member with inside | ⟨p,data',inBufs,live,inside⟩
        · exact ⟨parser.mapped.next,data,List.mem_append_right _ (List.mem_singleton_self _),mapped,inside⟩
        · exact ⟨p,data',List.mem_append_left _ inBufs,live,inside⟩
  | none =>
    refine ⟨{ parser' with mapped := parser'.mapped.erase parser.mapped.next },
      by simp [freeBuf,Heap.free_live mapped],more,?_,fun succeeded => absurd rfl succeeded⟩
    constructor
    · refine ⟨before.topDir,before.next,fun p below => ?_⟩
      rw [← before.cell p below]
      exact Heap.erase_cell_other (Nat.ne_of_lt below) _
    · exact adds.bufs
    · exact adds.nodup
    · exact fun p member => Nat.le_of_lt (above p member)
    · intro p bound
      rcases Nat.lt_or_eq_of_le bound with lt | rfl
      · have apart : p ≠ parser.mapped.next := Nat.ne_of_gt lt
        simp only [Heap.erase_cell_other apart]
        exact adds.live p lt
      · simp [notIn]

/-- A call of parse_directive_or_struct, when the calls it makes on included files are as said. -/
theorem parseDirectiveOrStruct_leaves {data : List UInt8}
    {nested : BanoParser → Ptr → List UInt8 → Outcome (Option Nat × BanoParser)}
    (below : ∀ parser buf data r parser', nested parser buf data = .done (r,parser') →
      Leaves parser buf data.length r parser')
    (place : s = data.drop start) (inside : start ≤ data.length)
    (called : parseDirectiveOrStruct fs nested parser buf start s = .done (r,parser')) :
    Leaves parser buf data.length r parser' := by
  by_cases blank : (nextToken s).2 = 0
  · simp only [parseDirectiveOrStruct,if_pos blank,Outcome.done.injEq,Prod.mk.injEq] at called
    obtain ⟨_,rfl⟩ := called
    exact leaves_rfl r
  obtain ⟨c,live⟩ := token_live blank
  simp only [parseDirectiveOrStruct,if_neg blank,live,Outcome.ofOption_some,Outcome.bind_done] at called
  cases dot : isDirective c with
  | false =>
    obtain ⟨_,_,ran⟩ := parseStruct_size s
    obtain ⟨found,read,_⟩ := ran buf start
    have reads := parseStruct_reads place inside read
    simp only [dot,read,Bool.false_eq_true,if_false,Outcome.bind_done] at called
    cases found with
    | none =>
      obtain ⟨_,rfl⟩ := Prod.mk.inj (Outcome.done.inj called)
      exact leaves_rfl r
    | some found =>
      obtain ⟨_,_,struktInside,_⟩ := reads
      obtain ⟨_,rfl⟩ := Prod.mk.inj (Outcome.done.inj called)
      exact leaves_struct struktInside r
  | true =>
    simp only [dot,if_true,parseDirective,if_neg blank,live,Outcome.ofOption_some,Outcome.bind_done,
      Bool.true_eq_false,if_false] at called
    split at called
    · split at called
      · obtain ⟨_,rfl⟩ := Prod.mk.inj (Outcome.done.inj called)
        exact leaves_rfl r
      · rw [allocMmapBuf_opens] at called
        split at called
        · obtain ⟨_,rfl⟩ := Prod.mk.inj (Outcome.done.inj called)
          exact leaves_rfl r
        · next buf' data' mapped opened =>
          obtain ⟨file,_,same⟩ := Option.map_eq_some_iff.mp opened
          simp only [Prod.mk.injEq] at same
          obtain ⟨rfl,rfl,rfl⟩ := same
          cases returned : nested (mapFile parser file) parser.mapped.next file with
          | running => simp [returned] at called
          | fault => simp [returned] at called
          | done result =>
            obtain ⟨r',parser''⟩ := result
            have left := (below _ _ _ _ _ returned).included buf data.length
            cases r' with
            | none =>
              obtain ⟨released,freed,left⟩ := left
              simp only [returned,freed,Outcome.bind_done,Outcome.done.injEq,Prod.mk.injEq] at called
              obtain ⟨rfl,rfl⟩ := called
              exact left
            | some n =>
              simp only [returned,Outcome.bind_done,Outcome.done.injEq,Prod.mk.injEq] at called
              obtain ⟨rfl,rfl⟩ := called
              exact left _
    · obtain ⟨_,rfl⟩ := Prod.mk.inj (Outcome.done.inj called)
      exact leaves_rfl r

/-- A call consumes no more than is left. -/
theorem call_within (call : Call fs dir s i (some j)) (before : i ≠ s.length) (inside : i ≤ s.length) :
    i + j ≤ s.length := by
  have rest : s.drop i ≠ [] := by
    rw [ne_eq,List.drop_eq_nil_iff]
    omega
  have consumed := call_item call
  cases item : itemOf dir (s.drop i) with
  | skip n =>
    rw [item] at consumed
    have same : j = n := consumed
    have bound := (itemOf_skip item rest).2
    rw [List.length_drop] at bound
    omega
  | other =>
    rw [item] at consumed
    have same : j = 0 := consumed
    omega
  | bad =>
    rw [item] at consumed
    exact consumed.elim
  | incl other n =>
    rw [item] at consumed
    have same : j = n := consumed.1
    have bound := (itemOf_incl item).2.1
    rw [List.length_drop] at bound
    omega

theorem parseBufFrom_leaves (inside : i ≤ s.length)
    (returned : parseBufFrom fs fuel parser buf s i = .done (r,parser')) :
    Leaves parser buf s.length r parser' := by
  induction fuel generalizing parser buf s i r parser' with
  | zero => simp [parseBufFrom] at returned
  | succ fuel ih =>
    rw [parseBufFrom] at returned
    split at returned
    · obtain ⟨_,rfl⟩ := Prod.mk.inj (Outcome.done.inj returned)
      exact leaves_rfl r
    · next before =>
      cases called : parseDirectiveOrStruct fs (fun parser buf data => parseBufFrom fs fuel parser buf data 0)
          parser buf i (s.drop i) with
      | running => simp [called] at returned
      | fault => simp [called] at returned
      | done result =>
        obtain ⟨r',parser''⟩ := result
        have left : Leaves parser buf s.length r' parser'' := parseDirectiveOrStruct_leaves
          (fun _ _ _ _ _ nested => ih (Nat.zero_le _) nested) rfl inside called
        simp only [called,Outcome.bind_done] at returned
        cases r' with
        | none =>
          obtain ⟨rfl,rfl⟩ := Prod.mk.inj (Outcome.done.inj returned)
          exact left
        | some j =>
          have within : i + j ≤ s.length := call_within ⟨fuel,parser,buf,parser'',rfl,called⟩ before inside
          obtain ⟨more,adds,gains⟩ := left
          obtain ⟨more',adds',gains'⟩ := ih within returned
          exact ⟨more ++ more',adds.trans adds',fun some' => (gains (by simp)).trans (gains' some') adds'⟩

/-- The tokens at the position of a struct are neither a struct nor an include of some path. -/
def Malformed (dir : List UInt8) (ts : List Token) : Prop :=
  ∃ name rest, ts = name :: rest ∧
    (name.head? ≠ some '.'.toUInt8 ∧ (¬∃ strukt left, RawStruct.Keyed strukt ∧ ts = strukt.tokens ++ left) ∨
     name = includeString ∧ ∀ path left, rest = path :: left → parserPathlen ≤ dir.length + path.length)

/-- A file that the load gets to is malformed where the parser gets to it, or includes there a
file that cannot be mapped. -/
def Rejected (fs : FileSystem) (path : List UInt8) : Prop :=
  ∃ dir p s i, getDirname path = some dir ∧ ReflTransGen (Includes fs dir) path p ∧ opens fs p = some s ∧
    Gets fs dir s i ∧ (Malformed dir (tokens (s.drop i)) ∨
      i ≠ s.length ∧ ∃ other n, itemOf dir (s.drop i) = .incl other n ∧ opens fs other = none)

theorem takeStruct_none : takeStruct ts = none ↔
    ¬∃ strukt left, RawStruct.Keyed strukt ∧ ts = strukt.tokens ++ left := by
  constructor
  · rintro stuck ⟨strukt,left,keyed,rfl⟩
    simp [takeStruct_tokens keyed] at stuck
  · intro noStruct
    cases took : takeStruct ts with
    | none => rfl
    | some found =>
      obtain ⟨same,keyed⟩ := takeStruct_some took
      exact absurd ⟨found.1,found.2,keyed,same⟩ noStruct

/-- The parser fails at a position exactly on malformed tokens. -/
theorem itemOf_bad (dir s : List UInt8) : itemOf dir s = .bad ↔ Malformed dir (tokens s) := by
  by_cases blank : (nextToken s).2 = 0
  · simp [itemOf,blank,Malformed,tokens_none blank]
  obtain ⟨c,live⟩ := token_live blank
  have first := tokens_some blank
  have head : (tokenAt s).head? = some c := by
    rw [tokenAt,List.head?_take,if_neg blank,List.head?_drop,live]
  have dotHead : isDirective c = true ↔ (tokenAt s).head? = some '.'.toUInt8 := by simp [head,isDirective]
  cases dot : isDirective c with
  | false =>
    have noDot : (tokenAt s).head? ≠ some '.'.toUInt8 := fun same => by simp [dotHead.mpr same] at dot
    have notInclude : tokenAt s ≠ includeString := by
      intro same
      rw [same] at noDot
      exact noDot rfl
    have malformed : Malformed dir (tokens s) ↔ takeStruct (tokens s) = none := by
      rw [takeStruct_none]
      constructor
      · rintro ⟨name,rest,same,⟨_,noStruct⟩ | ⟨isInclude,_⟩⟩
        · exact noStruct
        · exact absurd ((List.cons.inj (first.symm.trans same)).1.trans isInclude) notInclude
      · exact fun noStruct => ⟨_,_,first,.inl ⟨noDot,noStruct⟩⟩
    obtain ⟨_,_,ran⟩ := parseStruct_size s
    obtain ⟨r,read,_⟩ := ran 0 0
    have reads : ReadsStruct 0 s s r := parseStruct_reads rfl (Nat.zero_le _) read
    rw [malformed]
    cases r with
    | none =>
      have stuck : takeStruct (tokens s) = none := reads
      simp [itemOf,blank,live,dot,read,stuck]
    | some found =>
      obtain ⟨_,took,_⟩ := reads
      simp [itemOf,blank,live,dot,read,took]
  | true =>
    have known : isIncludeDirective ((s.drop (nextToken s).1).take (nextToken s).2) = true ↔
        tokenAt s = includeString := by simp [isIncludeDirective,tokenAt]
    have malformed : Malformed dir (tokens s) ↔ tokenAt s = includeString ∧
        ∀ path left, tokens (s.drop ((nextToken s).1 + (nextToken s).2)) = path :: left →
          parserPathlen ≤ dir.length + path.length := by
      constructor
      · rintro ⟨name,rest,same,⟨noDot,_⟩ | ⟨isInclude,tooLong⟩⟩
        · obtain ⟨rfl,_⟩ := List.cons.inj (first.symm.trans same)
          exact absurd (dotHead.mp dot) noDot
        · obtain ⟨rfl,rfl⟩ := List.cons.inj (first.symm.trans same)
          exact ⟨isInclude,tooLong⟩
      · exact fun fails => ⟨_,_,first,.inr fails⟩
    rw [malformed,← known]
    cases isInclude : isIncludeDirective ((s.drop (nextToken s).1).take (nextToken s).2) with
    | false => simp [itemOf,blank,live,dot,isInclude]
    | true =>
      by_cases noPath : (nextToken (s.drop ((nextToken s).1 + (nextToken s).2))).2 = 0
      · simp [itemOf,blank,live,dot,isInclude,noPath,tokens_none noPath]
      · have length := tokenAt_length (s.drop ((nextToken s).1 + (nextToken s).2))
        by_cases tooLong : parserPathlen ≤ dir.length + (nextToken (s.drop ((nextToken s).1 + (nextToken s).2))).2
        · simp [itemOf,blank,live,dot,isInclude,noPath,tooLong,tokens_some noPath,length]
        · simp [itemOf,blank,live,dot,isInclude,noPath,tooLong,tokens_some noPath,length]

/-- A scan that fails has met an item that makes it fail. -/
theorem scan_rejects {dir : List UInt8} (opened : opens fs p = some s) (gets : Gets fs dir s i)
    (failed : scan fs dir fuel s i = .done false) : ∃ q s i, ReflTransGen (Includes fs dir) p q ∧
      opens fs q = some s ∧ Gets fs dir s i ∧ (Malformed dir (tokens (s.drop i)) ∨
        i ≠ s.length ∧ ∃ other n, itemOf dir (s.drop i) = .incl other n ∧ opens fs other = none) := by
  induction fuel generalizing p s i with
  | zero => simp [scan] at failed
  | succ fuel ih =>
    simp only [scan] at failed
    split at failed
    · simp at failed
    · next before =>
      cases item : itemOf dir (s.drop i) with
      | skip n => rw [item] at failed; exact ih opened (.skip gets before item) failed
      | other => rw [item] at failed; exact ih opened gets failed
      | bad => exact ⟨p,s,i,.refl,opened,gets,.inl ((itemOf_bad _ _).mp item)⟩
      | incl other n =>
        simp only [item] at failed
        cases openedOther : opens fs other with
        | none => exact ⟨p,s,i,.refl,opened,gets,.inr ⟨before,other,n,item,openedOther⟩⟩
        | some data =>
          simp only [openedOther] at failed
          cases inner : scan fs dir fuel data 0 with
          | running => simp [inner] at failed
          | fault => simp [inner] at failed
          | done ok =>
            cases ok with
            | true =>
              rw [inner] at failed
              exact ih opened (.incl gets before item openedOther (scan_accepted inner)) failed
            | false =>
              obtain ⟨q,s',i',reached,rest⟩ := ih openedOther .start inner
              exact ⟨q,s',i',.head ⟨n,s,i,opened,gets,before,item⟩ reached,rest⟩

/-- A position that the parser gets to decides the result of the scan. -/
theorem gets_returns {dir : List UInt8} (gets : Gets fs dir s i)
    (returned : ∃ fuel, scan fs dir fuel s i = .done r) : ∃ fuel, scan fs dir fuel s 0 = .done r := by
  induction gets with
  | start => exact returned
  | skip _ before item ih =>
    obtain ⟨fuel,here⟩ := returned
    exact ih ⟨fuel + 1,by simp [scan,before,item,here]⟩
  | incl _ before item opened accepted ih =>
    obtain ⟨fuel,here⟩ := returned
    obtain ⟨fuel',inner⟩ := accepted_scan accepted
    apply ih
    refine ⟨max fuel fuel' + 1,?_⟩
    simp [scan,before,item,opened,scan_mono (Nat.le_max_left fuel fuel') here,
      scan_mono (Nat.le_max_right fuel fuel') inner]

theorem malformed_nil (dir : List UInt8) : ¬Malformed dir [] := by
  rintro ⟨_,_,same,_⟩
  exact nomatch same

theorem rejects_scan {dir : List UInt8} (gets : Gets fs dir s i)
    (fails : Malformed dir (tokens (s.drop i)) ∨
      i ≠ s.length ∧ ∃ other n, itemOf dir (s.drop i) = .incl other n ∧ opens fs other = none) :
    ∃ fuel, scan fs dir fuel s 0 = .done false := by
  refine gets_returns gets ⟨1,?_⟩
  rcases fails with malformed | ⟨before,other,n,item,closed⟩
  · have before : i ≠ s.length := by
      intro atEnd
      rw [atEnd,List.drop_length] at malformed
      exact malformed_nil dir malformed
    simp [scan,before,(itemOf_bad _ _).mpr malformed]
  · simp [scan,before,item,closed]

theorem included_fails {dir : List UInt8} (reached : ReflTransGen (Includes fs dir) p q)
    (openedAt : opens fs q = some t)
    (failed : ∃ fuel, scan fs dir fuel t 0 = .done false) :
    ∃ s, opens fs p = some s ∧ ∃ fuel, scan fs dir fuel s 0 = .done false := by
  induction reached using ReflTransGen.head_induction_on with
  | refl => exact ⟨t,openedAt,failed⟩
  | head included _ ih =>
    obtain ⟨n,s,i,opened,gets,before,item⟩ := included
    obtain ⟨data,openedOther,fuel,inner⟩ := ih
    exact ⟨s,opened,gets_returns gets ⟨fuel + 1,by simp [scan,before,item,openedOther,inner]⟩⟩

theorem rejected_iff (fs : FileSystem) (path : List UInt8) : Rejected fs path ↔ ∃ dir s fuel,
    getDirname path = some dir ∧ opens fs path = some s ∧ scan fs dir fuel s 0 = .done false := by
  constructor
  · rintro ⟨dir,p,t,i,dirname,reached,openedAt,gets,fails⟩
    obtain ⟨s,opened,fuel,failed⟩ := included_fails reached openedAt (rejects_scan gets fails)
    exact ⟨dir,s,fuel,dirname,opened,failed⟩
  · rintro ⟨dir,s,fuel,dirname,opened,failed⟩
    obtain ⟨q,t,i,reached,openedAt,gets,fails⟩ := scan_rejects opened .start failed
    exact ⟨dir,q,t,i,dirname,reached,openedAt,gets,fails⟩

/-- Releasing live buffers, each held once. -/
theorem freeBufs_live (bufs : List Ptr) (nodup : bufs.Nodup) (parser : BanoParser)
    (live : ∀ p ∈ bufs, ∃ data, parser.mapped.cell p = some data) :
    ∃ parser', freeBufs bufs parser = .done parser' ∧
      ∀ p, parser'.mapped.cell p = if p ∈ bufs then none else parser.mapped.cell p := by
  induction bufs generalizing parser with
  | nil => exact ⟨_,rfl,by simp⟩
  | cons buf bufs ih =>
    obtain ⟨notIn,nodup⟩ := List.nodup_cons.mp nodup
    obtain ⟨data,mapped⟩ := live buf (List.mem_cons_self ..)
    have later : ∀ p ∈ bufs, ∃ data, (parser.mapped.erase buf).cell p = some data := by
      intro p member
      have apart : p ≠ buf := fun same => notIn (same ▸ member)
      rw [Heap.erase_cell_other apart]
      exact live p (List.mem_cons_of_mem _ member)
    obtain ⟨parser',freed,cells⟩ := ih nodup { parser with mapped := parser.mapped.erase buf } later
    refine ⟨parser',by simp [freeBufs,freeBuf,Heap.free_live mapped,freed],fun p => ?_⟩
    rw [cells p,Heap.erase_cell]
    by_cases here : p = buf <;> by_cases there : p ∈ bufs <;> simp [here,there]

/-- Each buffer that a load maps is released once: before a failing load returns, or by the
bano_parser_fini that follows a load that succeeds, the strings of the structs lying in buffers
that are held until then. Releasing a buffer twice is a fault. -/
structure ReleasesOnce (fs : FileSystem) (path : List UInt8) : Prop where
  once : ∀ fuel, banoParserLoadFile fs fuel path ≠ .fault
  failed : ∀ fuel parser, banoParserLoadFile fs fuel path = .done (-1,parser) → ∀ p, parser.mapped.cell p = none
  kept : ∀ fuel parser, banoParserLoadFile fs fuel path = .done (0,parser) → ∀ p, p < parser.mapped.next →
    p ∈ parser.bufs ∧ ∃ data, parser.mapped.cell p = some data
  strings : ∀ fuel parser, banoParserLoadFile fs fuel path = .done (0,parser) →
    ∀ strukt ∈ parser.structs, Backed parser strukt
  released : ∀ fuel parser, banoParserLoadFile fs fuel path = .done (0,parser) →
    ∃ parser', banoParserFini parser = .done parser' ∧ ∀ p, parser'.mapped.cell p = none

/-- The parser when the top-level file is mapped. -/
def topParser (dir s : List UInt8) : BanoParser := ⟨dir,[0],[],Heap.empty.alloc s⟩

/-- The buffers held after a parse are live, each held once. -/
theorem Leaves.bufs (left : Leaves (topParser dir s) buf size r parser) :
    parser.bufs.Nodup ∧ (∀ p, p ∈ parser.bufs ↔ ∃ data, parser.mapped.cell p = some data) := by
  obtain ⟨more,adds,_⟩ := left
  have top : parser.mapped.cell 0 = some s := adds.keeps.cell 0 Nat.one_pos
  have bufs : parser.bufs = 0 :: more := adds.bufs
  rw [bufs]
  refine ⟨List.nodup_cons.mpr ⟨fun member => ?_,adds.nodup⟩,fun p => ?_⟩
  · exact Nat.not_succ_le_zero 0 (adds.fresh 0 member)
  · rcases Nat.eq_zero_or_pos p with rfl | pos
    · simp [top]
    · have apart : p ≠ 0 := Nat.ne_of_gt pos
      simp [apart,adds.live p pos]

theorem Leaves.fini (left : Leaves (topParser dir s) buf size r parser) :
    ∃ parser', banoParserFini parser = .done parser' ∧ ∀ p, parser'.mapped.cell p = none := by
  obtain ⟨nodup,live⟩ := left.bufs
  obtain ⟨parser',freed,cells⟩ := freeBufs_live parser.bufs nodup { parser with structs := [] }
    fun p member => (live p).mp member
  refine ⟨parser',freed,fun p => ?_⟩
  rw [cells p]
  split
  · rfl
  · next notIn =>
    cases cell : parser.mapped.cell p with
    | none => rfl
    | some data => exact absurd ((live p).mpr ⟨data,cell⟩) notIn

theorem load_unmapped (unmapped : ∀ dir, getDirname path = some dir → opens fs path = none) (fuel : Nat) :
    ∃ parser, banoParserLoadFile fs fuel path = .done (-1,parser) ∧ parser.mapped = Heap.empty := by
  cases dirname : getDirname path with
  | none => exact ⟨⟨[],[],[],Heap.empty⟩,by simp only [banoParserLoadFile,dirname],rfl⟩
  | some dir =>
    have closed := unmapped dir dirname
    exact ⟨⟨dir,[],[],Heap.empty⟩,
      by simp only [banoParserLoadFile,dirname,allocMmapBuf_opens,closed,Option.map_none],rfl⟩

/-- A load whose scan fails releases the top-level buffer twice. -/
theorem load_fault (dirname : getDirname path = some dir) (opened : opens fs path = some s)
    (failed : scan fs dir fuel s 0 = .done false) : banoParserLoadFile fs fuel path = .fault := by
  have agrees : Agrees (topParser dir s) s.length (scan fs dir fuel s 0)
      (parseBuf fs fuel (topParser dir s) 0 s) := parseBufFrom_scan (Nat.zero_le _)
  rw [failed] at agrees
  obtain ⟨parser,returned,_⟩ := agrees
  have left : Leaves (topParser dir s) 0 s.length none parser := parseBufFrom_leaves (Nat.zero_le _) returned
  obtain ⟨parser',freed,cells⟩ := left.fini
  have returned' : parseBuf fs fuel ⟨dir,[0],[],Heap.empty.alloc s⟩ 0 s = .done (none,parser) := returned
  simp [banoParserLoadFile,dirname,allocMmapBuf_opens,opened,mapFile,returned',freed,freeBuf,Heap.free,cells,
    Outcome.ofOption]

theorem load_running (dirname : getDirname path = some dir) (opened : opens fs path = some s)
    (running : scan fs dir fuel s 0 = .running) : banoParserLoadFile fs fuel path = .running := by
  have agrees : Agrees (topParser dir s) s.length (scan fs dir fuel s 0)
      (parseBuf fs fuel (topParser dir s) 0 s) := parseBufFrom_scan (Nat.zero_le _)
  rw [running] at agrees
  have stuck : parseBuf fs fuel ⟨dir,[0],[],Heap.empty.alloc s⟩ 0 s = .running := agrees
  simp [banoParserLoadFile,dirname,allocMmapBuf_opens,opened,mapFile,stuck]

/-- A load whose scan succeeds keeps what it mapped. -/
theorem load_kept (dirname : getDirname path = some dir) (opened : opens fs path = some s)
    (scanned : scan fs dir fuel s 0 = .done true) : ∃ parser, banoParserLoadFile fs fuel path = .done (0,parser) ∧
      Leaves (topParser dir s) 0 s.length (some s.length) parser := by
  have agrees : Agrees (topParser dir s) s.length (scan fs dir fuel s 0)
      (parseBuf fs fuel (topParser dir s) 0 s) := parseBufFrom_scan (Nat.zero_le _)
  rw [scanned] at agrees
  obtain ⟨parser,returned,_⟩ := agrees
  have returned' : parseBuf fs fuel ⟨dir,[0],[],Heap.empty.alloc s⟩ 0 s = .done (some s.length,parser) := returned
  exact ⟨parser,by simp [banoParserLoadFile,dirname,allocMmapBuf_opens,opened,mapFile,returned'],
    parseBufFrom_leaves (Nat.zero_le _) returned⟩

theorem load_done (dirname : getDirname path = some dir) (opened : opens fs path = some s)
    (notFailed : scan fs dir fuel s 0 ≠ .done false) : banoParserLoadFile fs fuel path = .running ∨
      ∃ parser, banoParserLoadFile fs fuel path = .done (0,parser) ∧
        Leaves (topParser dir s) 0 s.length (some s.length) parser := by
  rcases scan_returns fs dir fuel s 0 with running | ⟨ok,done⟩
  · exact .inl (load_running dirname opened running)
  · cases ok with
    | false => exact absurd done notFailed
    | true => exact .inr (load_kept dirname opened done)

theorem Leaves.strings (left : Leaves (topParser dir s) 0 s.length (some n) parser) :
    ∀ strukt ∈ parser.structs, Backed parser strukt := by
  have top : parser.mapped.cell 0 = some s := left.choose_spec.1.keeps.cell 0 Nat.one_pos
  have topHeld : 0 ∈ parser.bufs := (left.bufs.2 0).mpr ⟨s,top⟩
  obtain ⟨more,_,gains⟩ := left
  obtain ⟨added,structs,places⟩ := (gains (by simp)).structs
  intro strukt member
  have inAdded : strukt ∈ added := by
    rw [structs] at member
    exact member
  rcases places strukt inAdded with inside | backed
  · exact ⟨0,s,topHeld,top,inside⟩
  · exact backed

theorem Leaves.kept (left : Leaves (topParser dir s) 0 s.length (some n) parser) (below : p < parser.mapped.next) :
    p ∈ parser.bufs ∧ ∃ data, parser.mapped.cell p = some data := by
  have live := left.bufs.2 p
  obtain ⟨more,adds,gains⟩ := left
  have member : p ∈ parser.bufs := by
    rw [adds.bufs]
    rcases Nat.eq_zero_or_pos p with rfl | pos
    · exact List.mem_append_left _ (List.mem_singleton_self _)
    · exact List.mem_append_right _ ((gains (by simp)).all p pos below)
  exact ⟨member,live.mp member⟩

/-- Loading releases every buffer once exactly when it rejects no file that it gets to. -/
theorem releasesOnce_iff (fs : FileSystem) (path : List UInt8) : ReleasesOnce fs path ↔ ¬Rejected fs path := by
  constructor
  · intro releases rejected
    obtain ⟨dir,s,fuel,dirname,opened,failed⟩ := (rejected_iff fs path).mp rejected
    exact releases.once fuel (load_fault dirname opened failed)
  · intro notRejected
    have cases' : ∀ fuel, banoParserLoadFile fs fuel path = .running ∨
        (∃ parser, banoParserLoadFile fs fuel path = .done (-1,parser) ∧ parser.mapped = Heap.empty) ∨
        ∃ dir s parser, banoParserLoadFile fs fuel path = .done (0,parser) ∧
          Leaves (topParser dir s) 0 s.length (some s.length) parser := by
      intro fuel
      by_cases unmapped : ∀ dir, getDirname path = some dir → opens fs path = none
      · exact .inr (.inl (load_unmapped unmapped fuel))
      · push Not at unmapped
        obtain ⟨dir,dirname,some'⟩ := unmapped
        obtain ⟨s,opened⟩ := Option.ne_none_iff_exists'.mp some'
        have notFailed : scan fs dir fuel s 0 ≠ .done false := fun failed =>
          notRejected ((rejected_iff fs path).mpr ⟨dir,s,fuel,dirname,opened,failed⟩)
        rcases load_done dirname opened notFailed with running | ⟨parser,loaded,left⟩
        · exact .inl running
        · exact .inr (.inr ⟨dir,s,parser,loaded,left⟩)
    have loadedLeaves : ∀ fuel parser, banoParserLoadFile fs fuel path = .done (0,parser) →
        ∃ dir s, Leaves (topParser dir s) 0 s.length (some s.length) parser := by
      intro fuel parser loaded
      rcases cases' fuel with running | ⟨_,failed,_⟩ | ⟨dir,s,_,loaded',left⟩
      · simp [loaded] at running
      · simp [loaded] at failed
      · rw [loaded] at loaded'
        obtain ⟨_,rfl⟩ := Prod.mk.inj (Outcome.done.inj loaded')
        exact ⟨dir,s,left⟩
    constructor
    · intro fuel
      rcases cases' fuel with running | ⟨_,failed,_⟩ | ⟨_,_,_,loaded,_⟩ <;> simp [*]
    · intro fuel parser failed p
      rcases cases' fuel with running | ⟨_,failed',empty⟩ | ⟨_,_,_,loaded,_⟩
      · simp [failed] at running
      · rw [failed] at failed'
        obtain ⟨_,rfl⟩ := Prod.mk.inj (Outcome.done.inj failed')
        rw [empty]
        rfl
      · simp [failed] at loaded
    · intro fuel parser loaded p below
      obtain ⟨_,_,left⟩ := loadedLeaves fuel parser loaded
      exact left.kept below
    · intro fuel parser loaded
      obtain ⟨_,_,left⟩ := loadedLeaves fuel parser loaded
      exact left.strings
    · intro fuel parser loaded
      obtain ⟨_,_,left⟩ := loadedLeaves fuel parser loaded
      exact left.fini

/-- A file made of the letter `a`. -/
def nameFile : FileSystem := fun path => if path = ['a'.toUInt8] then some ['a'.toUInt8] else none

theorem nameFile_released_twice : ¬∀ fs path, ReleasesOnce fs path := by
  intro always
  have dirname : getDirname ['a'.toUInt8] = some ['a'.toUInt8] := by decide
  exact (always nameFile ['a'.toUInt8]).once 1 (load_fault dirname rfl (by decide))

end Bano
