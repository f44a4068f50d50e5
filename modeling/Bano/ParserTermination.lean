import Mathlib.Data.Set.Finite.List
import Mathlib.Logic.Relation
import Mathlib.Data.Fintype.Card
import Bano.ParserItems

/-! When bano_parser_load_file returns. A directive other than .include consumes nothing, and
nothing stops a file from including itself; everything else makes progress. -/
namespace Bano

open Lib Relation

/-- Every item from `i` on is fine, and every included file loads. -/
inductive Accepted (fs : FileSystem) (dir : List UInt8) : List UInt8 → Nat → Prop where
  | atEnd : Accepted fs dir s s.length
  | skip : i ≠ s.length → itemOf dir (s.drop i) = .skip n → Accepted fs dir s (i + n) → Accepted fs dir s i
  | incl : i ≠ s.length → itemOf dir (s.drop i) = .incl path n → opens fs path = some data →
      Accepted fs dir data 0 → Accepted fs dir s (i + n) → Accepted fs dir s i

/-- The positions of a file that the parser gets to. -/
inductive Gets (fs : FileSystem) (dir s : List UInt8) : Nat → Prop where
  | start : Gets fs dir s 0
  | skip : Gets fs dir s i → i ≠ s.length → itemOf dir (s.drop i) = .skip n → Gets fs dir s (i + n)
  | incl : Gets fs dir s i → i ≠ s.length → itemOf dir (s.drop i) = .incl path n →
      opens fs path = some data → Accepted fs dir data 0 → Gets fs dir s (i + n)

/-- The parser gets to an item of the file. -/
def Meets (fs : FileSystem) (dir path : List UInt8) (item : Item) : Prop :=
  ∃ s i, opens fs path = some s ∧ Gets fs dir s i ∧ i ≠ s.length ∧ itemOf dir (s.drop i) = item

def Includes (fs : FileSystem) (dir path other : List UInt8) : Prop := ∃ n, Meets fs dir path (.incl other n)

/-- A call of parse_directive_or_struct at offset `i`, as parse_buf makes it. -/
def Call (fs : FileSystem) (dir s : List UInt8) (i : Nat) (ret : Option Nat) : Prop :=
  ∃ fuel parser buf parser', parser.topDir = dir ∧
    parseDirectiveOrStruct fs (parseBuf fs fuel) parser buf i (s.drop i) = .done (ret,parser')

/-- parse_buf gets to offset `i` of `path`, below a number of nested includes. -/
inductive Visits (fs : FileSystem) (dir top : List UInt8) : Nat → List UInt8 → Nat → Prop where
  | start : Visits fs dir top 0 top 0
  | next : Visits fs dir top depth path i → opens fs path = some s → i ≠ s.length →
      Call fs dir s i (some j) → Visits fs dir top depth path (i + j)
  | enter : Visits fs dir top depth path i → opens fs path = some s → i ≠ s.length →
      itemOf dir (s.drop i) = .incl other n → Visits fs dir top (depth + 1) other 0

/-- The load returns, its loops make progress and its recursion is bounded; a file that
includes itself makes it fail. -/
structure Terminates (fs : FileSystem) (path : List UInt8) : Prop where
  returns : ∃ fuel, banoParserLoadFile fs fuel path ≠ .running
  progress : ∀ dir depth p i s j, getDirname path = some dir → Visits fs dir path depth p i →
    opens fs p = some s → i ≠ s.length → Call fs dir s i (some j) → 0 < j
  depth : ∀ dir, getDirname path = some dir → ∃ bound, ∀ depth p i, Visits fs dir path depth p i → depth ≤ bound
  rejects : ∀ dir p, getDirname path = some dir → ReflTransGen (Includes fs dir) path p →
    TransGen (Includes fs dir) p p → ∃ fuel parser, banoParserLoadFile fs fuel path = .done (-1,parser)

theorem scan_mono (more : fuel ≤ fuel') (returned : scan fs dir fuel s i = .done r) :
    scan fs dir fuel' s i = .done r := by
  induction fuel generalizing fuel' s i r with
  | zero => simp [scan] at returned
  | succ fuel ih =>
    obtain ⟨fuel',rfl⟩ : ∃ n, fuel' = n + 1 := ⟨fuel' - 1,by omega⟩
    have more : fuel ≤ fuel' := by omega
    simp only [scan] at returned ⊢
    split
    · next atEnd => rwa [if_pos atEnd] at returned
    · next before =>
      rw [if_neg before] at returned
      cases item : itemOf dir (s.drop i) with
      | skip n => rw [item] at returned; exact ih more returned
      | other => rw [item] at returned; exact ih more returned
      | bad => rw [item] at returned; exact returned
      | incl path n =>
        simp only [item] at returned ⊢
        cases opened : opens fs path with
        | none => rw [opened] at returned; exact returned
        | some data =>
          simp only [opened] at returned ⊢
          cases inner : scan fs dir fuel data 0 with
          | running => simp [inner] at returned
          | fault => simp [inner] at returned
          | done ok =>
            rw [ih more inner]
            rw [inner] at returned
            cases ok with
            | true => exact ih more returned
            | false => exact returned

theorem scan_unique (one : scan fs dir fuel s i = .done r) (other : scan fs dir fuel' s i = .done r') :
    r = r' := by
  have both := scan_mono (Nat.le_max_left fuel fuel') one
  rw [scan_mono (Nat.le_max_right fuel fuel') other] at both
  exact (Outcome.done.inj both).symm

theorem accepted_scan (accepted : Accepted fs dir s i) : ∃ fuel, scan fs dir fuel s i = .done true := by
  induction accepted with
  | atEnd => exact ⟨1,by simp [scan]⟩
  | skip before item _ ih =>
    obtain ⟨fuel,rest⟩ := ih
    exact ⟨fuel + 1,by simp [scan,before,item,rest]⟩
  | incl before item opened _ _ inner ih =>
    obtain ⟨fuel,nested⟩ := inner
    obtain ⟨fuel',rest⟩ := ih
    refine ⟨max fuel fuel' + 1,?_⟩
    simp [scan,before,item,opened,scan_mono (Nat.le_max_left fuel fuel') nested,
      scan_mono (Nat.le_max_right fuel fuel') rest]

theorem scan_accepted (returned : scan fs dir fuel s i = .done true) : Accepted fs dir s i := by
  induction fuel generalizing s i with
  | zero => simp [scan] at returned
  | succ fuel ih =>
    simp only [scan] at returned
    split at returned
    · next atEnd => exact atEnd ▸ .atEnd
    · next before =>
      cases item : itemOf dir (s.drop i) with
      | skip n => rw [item] at returned; exact .skip before item (ih returned)
      | other => rw [item] at returned; exact ih returned
      | bad => simp [item] at returned
      | incl path n =>
        simp only [item] at returned
        cases opened : opens fs path with
        | none => simp [opened] at returned
        | some data =>
          simp only [opened] at returned
          cases inner : scan fs dir fuel data 0 with
          | running => simp [inner] at returned
          | fault => simp [inner] at returned
          | done ok =>
            cases ok with
            | false => simp [inner] at returned
            | true =>
              rw [inner] at returned
              exact .incl before item opened (ih inner) (ih returned)

/-- A scan that returns does so through every position it gets to. -/
theorem gets_scan (gets : Gets fs dir s i) (returned : scan fs dir fuel s 0 = .done r) :
    ∃ fuel', fuel' ≤ fuel ∧ scan fs dir fuel' s i = .done r := by
  induction gets with
  | start => exact ⟨fuel,Nat.le_refl _,returned⟩
  | skip _ before item ih =>
    obtain ⟨fuel',le,here⟩ := ih
    cases fuel' with
    | zero => simp [scan] at here
    | succ fuel' =>
      refine ⟨fuel',by omega,?_⟩
      simpa [scan,before,item] using here
  | @incl i path n data _ before item opened accepted ih =>
    obtain ⟨fuel',le,here⟩ := ih
    cases fuel' with
    | zero => simp [scan] at here
    | succ fuel' =>
      refine ⟨fuel',by omega,?_⟩
      obtain ⟨_,inner⟩ := accepted_scan accepted
      simp only [scan,if_neg before,item,opened] at here
      cases nested : scan fs dir fuel' data 0 with
      | running => simp [nested] at here
      | fault => simp [nested] at here
      | done ok =>
        obtain rfl := scan_unique nested inner
        rw [nested] at here
        exact here

/-- A directive other than .include is met again and again. -/
theorem scan_other (before : i ≠ s.length) (item : itemOf dir (s.drop i) = .other) (fuel : Nat) :
    scan fs dir fuel s i = .running := by
  induction fuel with
  | zero => rfl
  | succ fuel ih => simp [scan,before,item,ih]

theorem meets_not_other (returned : ∃ fuel r, scan fs dir fuel s 0 = .done r) (opened : opens fs path = some s) :
    ¬Meets fs dir path .other := by
  rintro ⟨s',i,opened',gets,before,item⟩
  obtain rfl := Option.some.inj (opened.symm.trans opened')
  obtain ⟨fuel,r,done⟩ := returned
  obtain ⟨fuel',_,here⟩ := gets_scan gets done
  simp [scan_other before item] at here

/-- An included file is scanned with less fuel. -/
theorem includes_scan (opened : opens fs path = some s) (returned : scan fs dir fuel s 0 = .done r)
    (included : Includes fs dir path other) : 0 < fuel ∧ ∀ data, opens fs other = some data →
      ∃ fuel' r', fuel' < fuel ∧ scan fs dir fuel' data 0 = .done r' := by
  obtain ⟨n,s',i,opened',gets,before,item⟩ := included
  obtain rfl := Option.some.inj (opened.symm.trans opened')
  obtain ⟨fuel',le,here⟩ := gets_scan gets returned
  cases fuel' with
  | zero => simp [scan] at here
  | succ fuel' =>
    refine ⟨by omega,fun data openedOther => ?_⟩
    simp only [scan,if_neg before,item,openedOther] at here
    cases nested : scan fs dir fuel' data 0 with
    | running => simp [nested] at here
    | fault => simp [nested] at here
    | done ok => exact ⟨fuel',ok,by omega,nested⟩

theorem includes_acc (fuel : Nat) : ∀ path s, opens fs path = some s →
    (∃ r, scan fs dir fuel s 0 = .done r) → Acc (fun a b => Includes fs dir b a) path := by
  induction fuel using Nat.strong_induction_on with
  | _ fuel ih =>
    rintro path s opened ⟨r,returned⟩
    apply Acc.intro _
    intro other included
    cases openedOther : opens fs other with
    | none =>
      apply Acc.intro _
      rintro _ ⟨_,s',_,opened',_⟩
      simp [openedOther] at opened'
    | some data =>
      obtain ⟨fuel',r',less,done⟩ := (includes_scan opened returned included).2 data openedOther
      exact ih fuel' less other data openedOther ⟨r',done⟩

theorem scan_returns (fs : FileSystem) (dir : List UInt8) (fuel : Nat) (s : List UInt8) (i : Nat) :
    scan fs dir fuel s i = .running ∨ ∃ r, scan fs dir fuel s i = .done r := by
  induction fuel generalizing s i with
  | zero => exact .inl rfl
  | succ fuel ih =>
    simp only [scan]
    split
    · exact .inr ⟨_,rfl⟩
    · cases itemOf dir (s.drop i) with
      | skip n => exact ih s (i + n)
      | other => exact ih s i
      | bad => exact .inr ⟨_,rfl⟩
      | incl path n =>
        cases opened : opens fs path with
        | none => exact .inr ⟨false,by simp [opened]⟩
        | some data =>
          rcases ih data 0 with running | ⟨ok,done⟩
          · exact .inl (by simp [opened,running])
          · cases ok with
            | true => simpa [opened,done] using ih s (i + n)
            | false => exact .inr ⟨false,by simp [opened,done]⟩

theorem freeBufs_not_running (bufs : List Ptr) (parser : BanoParser) : freeBufs bufs parser ≠ .running := by
  induction bufs generalizing parser with
  | nil => simp [freeBufs]
  | cons buf bufs ih =>
    cases released : parser.mapped.free buf with
    | none => simp [freeBufs,freeBuf,released,Outcome.ofOption]
    | some mapped => simpa [freeBufs,freeBuf,released] using ih _

/-- The load returns when the scan of the top-level file does. -/
theorem load_returns_iff (path : List UInt8) : (∃ fuel, banoParserLoadFile fs fuel path ≠ .running) ↔
    ∀ dir s, getDirname path = some dir → opens fs path = some s → ∃ fuel r, scan fs dir fuel s 0 = .done r := by
  cases dirname : getDirname path with
  | none => exact ⟨fun _ => by simp,fun _ => ⟨0,by simp [banoParserLoadFile,dirname]⟩⟩
  | some dir =>
    cases opened : opens fs path with
    | none =>
      exact ⟨fun _ => by simp,fun _ => ⟨0,by simp [banoParserLoadFile,dirname,allocMmapBuf_opens,opened]⟩⟩
    | some s =>
      have iff : ∀ fuel, banoParserLoadFile fs fuel path ≠ .running ↔ ∃ r, scan fs dir fuel s 0 = .done r := by
        intro fuel
        have agrees : Agrees ⟨dir,[0],[],Heap.empty.alloc s⟩ s.length (scan fs dir fuel s 0)
            (parseBuf fs fuel ⟨dir,[0],[],Heap.empty.alloc s⟩ 0 s) := parseBufFrom_scan (Nat.zero_le _)
        rcases scan_returns fs dir fuel s 0 with running | ⟨ok,done⟩
        · rw [running] at agrees
          have stuck : parseBuf fs fuel ⟨dir,[0],[],Heap.empty.alloc s⟩ 0 s = .running := agrees
          simp [banoParserLoadFile,dirname,allocMmapBuf_opens,opened,mapFile,stuck,running]
        · rw [done] at agrees
          obtain ⟨parser,returned,_⟩ := agrees
          refine ⟨fun _ => ⟨ok,done⟩,fun _ => ?_⟩
          cases ok with
          | true => simp [banoParserLoadFile,dirname,allocMmapBuf_opens,opened,mapFile,returned]
          | false =>
            have released := freeBufs_not_running parser.bufs { parser with structs := [] }
            cases fini : freeBufs parser.bufs { parser with structs := [] } with
            | running => exact absurd fini released
            | fault => simp [banoParserLoadFile,dirname,allocMmapBuf_opens,opened,mapFile,returned,
                banoParserFini,fini]
            | done parser' =>
              cases last : parser'.mapped.free 0 with
              | none => simp [banoParserLoadFile,dirname,allocMmapBuf_opens,opened,mapFile,returned,
                  banoParserFini,fini,freeBuf,last,Outcome.ofOption]
              | some mapped => simp [banoParserLoadFile,dirname,allocMmapBuf_opens,opened,mapFile,returned,
                  banoParserFini,fini,freeBuf,last]
      simp only [iff]
      constructor
      · rintro ⟨fuel,r,done⟩ _ _ ⟨⟩ ⟨⟩
        exact ⟨fuel,r,done⟩
      · intro returns
        exact returns dir s rfl rfl

/-- What a successful call of parse_directive_or_struct consumed. -/
theorem call_item (call : Call fs dir s i (some j)) :
    match itemOf dir (s.drop i) with
    | .skip n => j = n
    | .other => j = 0
    | .bad => False
    | .incl path n => j = n ∧ ∃ data, opens fs path = some data ∧ Accepted fs dir data 0 := by
  obtain ⟨fuel,parser,buf,parser',rfl,called⟩ := call
  cases item : itemOf parser.topDir (s.drop i) with
  | skip n =>
    have skipped : ∃ parser', parseDirectiveOrStruct fs (parseBuf fs fuel) parser buf i (s.drop i) =
      .done (some n,parser') ∧
        Keeps parser parser' := parseDirectiveOrStruct_skip item
    obtain ⟨_,called',_⟩ := skipped
    simp [called'] at called
    exact called.1.symm
  | other =>
    simp [parseDirectiveOrStruct_other item] at called
    exact called.1.symm
  | bad => simp [parseDirectiveOrStruct_bad item] at called
  | incl path n =>
    cases opened : opens fs path with
    | none => simp [parseDirectiveOrStruct_missing item opened] at called
    | some data =>
      have inner : Agrees (mapFile parser data) data.length (scan fs parser.topDir fuel data 0)
          (parseBuf fs fuel (mapFile parser data) parser.mapped.next data) :=
        parseBufFrom_scan (Nat.zero_le _)
      have agrees : Agrees parser n _ (parseDirectiveOrStruct fs (parseBuf fs fuel) parser buf i (s.drop i)) :=
        parseDirective_incl opened inner item
      rw [called] at agrees
      rcases scan_returns fs parser.topDir fuel data 0 with running | ⟨ok,done⟩
      · rw [running] at agrees
        simp [Agrees] at agrees
      · rw [done] at agrees
        obtain ⟨_,same,_⟩ := agrees
        cases ok with
        | false => simp at same
        | true =>
          simp only [if_true,Outcome.done.injEq,Prod.mk.injEq,Option.some.injEq] at same
          exact ⟨same.1,data,opened,scan_accepted done⟩

/-- The position of a visit, and the fuel that is left there. -/
theorem visits_scan {top : List UInt8} (returned : ∀ s, opens fs top = some s → ∃ r, scan fs dir fuel s 0 = .done r)
    (visits : Visits fs dir top depth path i) : depth ≤ fuel ∧ ReflTransGen (Includes fs dir) top path ∧
      ∀ s, opens fs path = some s → Gets fs dir s i ∧ i ≤ s.length ∧
        ∃ fuel' r, fuel' + depth ≤ fuel ∧ scan fs dir fuel' s 0 = .done r := by
  induction visits with
  | start =>
    refine ⟨Nat.zero_le _,.refl,fun s opened => ⟨.start,Nat.zero_le _,fuel,?_⟩⟩
    obtain ⟨r,done⟩ := returned s opened
    exact ⟨r,Nat.le_refl _,done⟩
  | @next depth path i s j _ opened before call ih =>
    refine ⟨ih.1,ih.2.1,fun s' opened' => ?_⟩
    obtain rfl := Option.some.inj (opened.symm.trans opened')
    obtain ⟨gets,inside,done⟩ := ih.2.2 s opened
    have rest : s.drop i ≠ [] := by
      rw [ne_eq,List.drop_eq_nil_iff]
      omega
    have consumed := call_item call
    cases item : itemOf dir (s.drop i) with
    | skip n =>
      rw [item] at consumed
      obtain rfl : j = n := consumed
      have bound := (itemOf_skip item rest).2
      rw [List.length_drop] at bound
      exact ⟨.skip gets before item,by omega,done⟩
    | other =>
      rw [item] at consumed
      obtain rfl : j = 0 := consumed
      exact ⟨gets,inside,done⟩
    | bad =>
      rw [item] at consumed
      exact consumed.elim
    | incl other n =>
      rw [item] at consumed
      obtain ⟨rfl,data,openedOther,accepted⟩ := consumed
      have bound := (itemOf_incl item).2.1
      rw [List.length_drop] at bound
      exact ⟨.incl gets before item openedOther accepted,by omega,done⟩
  | @enter depth path i s other n _ opened before item ih =>
    obtain ⟨gets,inside,fuel',r,less,done⟩ := ih.2.2 s opened
    have included : Includes fs dir path other := ⟨n,s,i,opened,gets,before,item⟩
    obtain ⟨pos,nested⟩ := includes_scan opened done included
    refine ⟨by omega,ih.2.1.tail included,fun data openedOther => ⟨.start,Nat.zero_le _,?_⟩⟩
    obtain ⟨fuel'',r',less',done'⟩ := nested data openedOther
    exact ⟨fuel'',r',by omega,done'⟩

/-- Every file reached from one whose scan returns has a scan that returns. -/
theorem reached_scan (returned : ∀ s, opens fs path = some s → ∃ fuel r, scan fs dir fuel s 0 = .done r)
    (reached : ReflTransGen (Includes fs dir) path p) :
    ∀ s, opens fs p = some s → ∃ fuel r, scan fs dir fuel s 0 = .done r := by
  induction reached with
  | refl => exact returned
  | tail _ included ih =>
    intro data opened
    obtain ⟨n,s,i,openedFrom,_⟩ := id included
    obtain ⟨fuel,r,done⟩ := ih s openedFrom
    obtain ⟨fuel',r',_,done'⟩ := (includes_scan openedFrom done included).2 data opened
    exact ⟨fuel',r',done'⟩

theorem acc_irrefl {r : α → α → Prop} (acc : Acc r a) : ¬r a a := by
  induction acc with
  | intro a _ ih => exact fun loop => ih a loop loop

theorem scan_acyclic (returned : ∀ s, opens fs p = some s → ∃ fuel r, scan fs dir fuel s 0 = .done r) :
    ¬TransGen (Includes fs dir) p p := by
  intro loop
  cases opened : opens fs p with
  | none =>
    obtain ⟨_,⟨_,s,_,opened',_⟩,_⟩ := TransGen.head'_iff.mp loop
    simp [opened] at opened'
  | some s =>
    obtain ⟨fuel,done⟩ := returned s opened
    exact acc_irrefl (includes_acc fuel p s opened done).transGen (transGen_swap.mpr loop)

/-- Only finitely many files are reached: the path of an included file is bounded. -/
theorem reached_finite (fs : FileSystem) (dir path : List UInt8) :
    {p | ReflTransGen (Includes fs dir) path p}.Finite := by
  have : Finite UInt8 := Finite.of_injective UInt8.toFin fun _ _ same => UInt8.toFin_inj.mp same
  apply (List.finite_length_le UInt8 parserPathlen |>.insert path).subset
  intro p reached
  rcases reached.cases_tail with rfl | ⟨q,_,n,s,i,_,_,_,item⟩
  · exact Set.mem_insert _ _
  · exact Set.mem_insert_of_mem _ (Nat.le_of_lt (itemOf_incl item).2.2)

/-- Without stuck directives and cycles, scanning every reached file returns. -/
theorem acyclic_scan (path : List UInt8) (fine : ∀ p, ReflTransGen (Includes fs dir) path p →
      ¬Meets fs dir p .other ∧ ¬TransGen (Includes fs dir) p p) :
    ∀ s, opens fs path = some s → ∃ fuel r, scan fs dir fuel s 0 = .done r := by
  let Reached := {p // ReflTransGen (Includes fs dir) path p}
  have : Finite Reached := (reached_finite fs dir path).to_subtype
  let below (a b : Reached) : Prop := TransGen (Includes fs dir) b.1 a.1
  have : IsTrans Reached below := ⟨fun _ _ _ one other => other.trans one⟩
  have : Std.Irrefl below := ⟨fun p => (fine p.1 p.2).2⟩
  have founded : WellFounded below := Finite.wellFounded_of_trans_of_irrefl below
  have all : ∀ p : Reached, ∀ s, opens fs p.1 = some s → ∃ fuel r, scan fs dir fuel s 0 = .done r := by
    intro p
    induction p using founded.induction with
    | _ p ih =>
      intro s opened
      have within : ∀ k i, s.length - i = k → i ≤ s.length → Gets fs dir s i →
          ∃ fuel r, scan fs dir fuel s i = .done r := by
        intro k
        induction k using Nat.strong_induction_on with
        | _ k later =>
          rintro i rfl inside gets
          by_cases before : i = s.length
          · exact ⟨1,true,by simp [scan,before]⟩
          have rest : s.drop i ≠ [] := by
            rw [ne_eq,List.drop_eq_nil_iff]
            omega
          cases item : itemOf dir (s.drop i) with
          | skip n =>
            obtain ⟨pos,bound⟩ := itemOf_skip item rest
            rw [List.length_drop] at bound
            obtain ⟨fuel,r,done⟩ := later (s.length - (i + n)) (by omega) (i + n) rfl (by omega)
              (.skip gets before item)
            exact ⟨fuel + 1,r,by simp [scan,before,item,done]⟩
          | other => exact absurd ⟨s,i,opened,gets,before,item⟩ (fine p.1 p.2).1
          | bad => exact ⟨1,false,by simp [scan,before,item]⟩
          | incl q n =>
            obtain ⟨pos,bound,_⟩ := itemOf_incl item
            rw [List.length_drop] at bound
            have included : Includes fs dir p.1 q := ⟨n,s,i,opened,gets,before,item⟩
            cases openedOther : opens fs q with
            | none => exact ⟨1,false,by simp [scan,before,item,openedOther]⟩
            | some data =>
              obtain ⟨fuel,ok,inner⟩ := ih ⟨q,p.2.tail included⟩ (.single included) data openedOther
              cases ok with
              | false => exact ⟨fuel + 1,false,by simp [scan,before,item,openedOther,inner]⟩
              | true =>
                obtain ⟨fuel',r,done⟩ := later (s.length - (i + n)) (by omega) (i + n) rfl (by omega)
                  (.incl gets before item openedOther (scan_accepted inner))
                refine ⟨max fuel fuel' + 1,r,?_⟩
                simp [scan,before,item,openedOther,scan_mono (Nat.le_max_left fuel fuel') inner,
                  scan_mono (Nat.le_max_right fuel fuel') done]
      exact within _ 0 rfl (Nat.zero_le _) .start
  exact all ⟨path,.refl⟩

/-- A load terminates exactly when no file it reaches has a directive other than .include
where the parser gets to it, and none reaches itself. -/
theorem terminates_iff (fs : FileSystem) (path : List UInt8) : Terminates fs path ↔
    ∀ dir, getDirname path = some dir → ∀ p, ReflTransGen (Includes fs dir) path p →
      ¬Meets fs dir p .other ∧ ¬TransGen (Includes fs dir) p p := by
  constructor
  · intro terminates dir dirname p reached
    have returned := fun s => (load_returns_iff path).mp terminates.returns dir s dirname
    have here := reached_scan returned reached
    refine ⟨?_,scan_acyclic here⟩
    intro meets
    obtain ⟨s,_,opened,_⟩ := id meets
    exact meets_not_other (here s opened) opened meets
  · intro fine
    have bounded : ∀ dir, getDirname path = some dir →
        ∃ fuel, ∀ s, opens fs path = some s → ∃ r, scan fs dir fuel s 0 = .done r := by
      intro dir dirname
      cases opened : opens fs path with
      | none => exact ⟨0,by simp⟩
      | some s =>
        obtain ⟨fuel,done⟩ := acyclic_scan path (fine dir dirname) s opened
        exact ⟨fuel,by rintro _ ⟨⟩; exact done⟩
    refine ⟨(load_returns_iff path).mpr fun dir s dirname => acyclic_scan path (fine dir dirname) s,?_,?_,?_⟩
    · intro dir depth p i s j dirname visits opened before call
      obtain ⟨fuel,returned⟩ := bounded dir dirname
      obtain ⟨_,reached,positions⟩ := visits_scan returned visits
      obtain ⟨gets,inside,_⟩ := positions s opened
      have consumed := call_item call
      cases item : itemOf dir (s.drop i) with
      | skip n =>
        rw [item] at consumed
        obtain rfl : j = n := consumed
        refine (itemOf_skip item ?_).1
        rw [ne_eq,List.drop_eq_nil_iff]
        omega
      | other => exact absurd ⟨s,i,opened,gets,before,item⟩ (fine dir dirname p reached).1
      | bad =>
        rw [item] at consumed
        exact consumed.elim
      | incl q n =>
        rw [item] at consumed
        obtain ⟨rfl,_⟩ := consumed
        exact (itemOf_incl item).1
    · intro dir dirname
      obtain ⟨fuel,returned⟩ := bounded dir dirname
      exact ⟨fuel,fun depth p i visits => (visits_scan returned visits).1⟩
    · intro dir p dirname reached loop
      exact absurd loop (fine dir dirname p reached).2

/-- A file made of the word `.x`. -/
def stuckFile : FileSystem := fun path => if path = ['a'.toUInt8] then some ['.'.toUInt8,'x'.toUInt8] else none

theorem stuckFile_runs : ¬∀ fs path, Terminates fs path := by
  intro always
  obtain ⟨fuel,returned⟩ := (load_returns_iff _).mp (always stuckFile ['a'.toUInt8]).returns _ _ rfl rfl
  obtain ⟨r,done⟩ := returned
  rw [scan_other (by decide) (by decide)] at done
  exact absurd done (by simp)

end Bano
