import Bano.Records

/-! The parser stays inside its buffers: on n bytes at s that are all that can be read there, it never faults, returns
(size_t)-1 or a size of at most n, and records strings inside s[0..n) or inside a file it includes. -/
namespace Bano.SizeT

open Lib

/-- The strings of a struct of the list lie in s[0..n), or were never set. -/
def ParserStruct.In (strukt : ParserStruct) (buf : Ptr) (s n : Size) : Prop :=
  ParserStruct.Recorded buf s n structInit strukt

/-- What a call on s[0..n) does to the parser: the buffers that were mapped stay,
and the structs it adds lie in s[0..n) or in a file that it mapped. -/
structure Parsed (parser : BanoParser) (buf : Ptr) (s n : Size) (parser' : BanoParser) : Prop where
  topDir : parser'.topDir = parser.topDir
  grants : parser'.allocs.grants = parser.allocs.grants
  next : parser.mapped.next ≤ parser'.mapped.next
  cell : ∀ p, p < parser.mapped.next → parser'.mapped.cell p = parser.mapped.cell p
  structs : ∃ more, parser'.structs = parser.structs ++ more ∧ ∀ strukt ∈ more, strukt.In buf s n ∨
    ∃ file m, parser.mapped.next ≤ file ∧ parser'.mapped.cell file = some m ∧ strukt.In file 0 m.size

/-- The call returned as it should, or is still running where it may. -/
inductive Confined (mayRun : Prop) (parser : BanoParser) (buf : Ptr) (s n : Size) :
    Outcome (Size × BanoParser) → Prop where
  | running : mayRun → Confined mayRun parser buf s n .running
  | done : ret = failed ∨ ret ≤ n → Parsed parser buf s n parser' →
      Confined mayRun parser buf s n (.done (ret,parser'))

/-- `data` is at `s` of the mapped buffer, and nothing else of it can be read. -/
structure HoldsOnly (region : Region) (s : Size) (data : List UInt8) : Prop extends Holds region s data where
  only : ∀ p, data.length ≤ (p - s).toNat → region p = none

/-- The buffer is mapped and holds `data` at `s`. -/
def Maps (parser : BanoParser) (buf : Ptr) (s : Size) (data : List UInt8) : Prop :=
  ∃ m, parser.mapped.cell buf = some m ∧ m.live = true ∧ Holds m.region s data

theorem Maps.region {parser : BanoParser} (maps : Maps parser buf s data) :
    ∃ region, parser.region buf = .done region ∧ Holds region s data := by
  obtain ⟨m,cell,live,holds⟩ := maps
  exact ⟨m.region,by simp [BanoParser.region,cell,live],holds⟩

theorem Maps.drop {parser : BanoParser} (maps : Maps parser buf s data) (k : Nat) :
    Maps parser buf (s + size k) (data.drop k) := by
  obtain ⟨m,cell,live,holds⟩ := maps
  exact ⟨m,cell,live,holds.drop k⟩

/-- A buffer that was mapped before the call still is. -/
theorem Maps.parsed {parser parser' : BanoParser} (maps : Maps parser buf s data)
    (parsed : Parsed parser b p n parser') :
    Maps parser' buf s data := by
  obtain ⟨m,cell,live,holds⟩ := maps
  exact ⟨m,(parsed.cell buf (Heap.lt_next cell)).trans cell,live,holds⟩

theorem Parsed.refl (parser : BanoParser) (buf : Ptr) (s n : Size) : Parsed parser buf s n parser :=
  ⟨rfl,rfl,Nat.le_refl _,fun _ _ => rfl,[],by simp⟩

theorem Parsed.trans (one : Parsed a buf s n b) (other : Parsed b buf s n c) : Parsed a buf s n c := by
  obtain ⟨first,same,each⟩ := one.structs
  obtain ⟨second,same',each'⟩ := other.structs
  refine ⟨other.topDir.trans one.topDir,other.grants.trans one.grants,Nat.le_trans one.next other.next,fun p old =>
    (other.cell p (Nat.lt_of_lt_of_le old one.next)).trans (one.cell p old),first ++ second,by simp [same,same'],?_⟩
  intro strukt member
  rcases List.mem_append.mp member with early | late
  · refine (each strukt early).imp id fun ⟨file,m,new,cell,inside⟩ => ⟨file,m,new,?_,inside⟩
    exact (other.cell file (Heap.lt_next cell)).trans cell
  · exact (each' strukt late).imp id fun ⟨file,m,new,found⟩ => ⟨file,m,Nat.le_trans one.next new,found⟩

/-- Only the allocations go on. -/
theorem Parsed.asked {parser : BanoParser} {allocs : Allocs} (grants : allocs.grants = parser.allocs.grants) :
    Parsed parser buf s n { parser with allocs := allocs } := ⟨rfl,grants,Nat.le_refl _,fun _ _ => rfl,[],by simp⟩

theorem struct_widen {strukt : ParserStruct} {data : List UInt8}
    (inside : strukt.In buf (s + size k) (size data.length - size k))
    (fits : data.length < 2 ^ 64) (within : k ≤ data.length) : strukt.In buf s (size data.length) := by
  refine ⟨inside.name.imp id fun there => inSlice_widen there fits within,?_⟩
  obtain ⟨more,same,each⟩ := inside.pairs
  exact ⟨more,same,fun pair member => recorded_widen (each pair member) fits within⟩

/-- What is done to a part of a buffer is done to the buffer. -/
theorem Parsed.widen {data : List UInt8} (parsed : Parsed parser buf (s + size k) (size data.length - size k) parser')
    (fits : data.length < 2 ^ 64) (within : k ≤ data.length) : Parsed parser buf s (size data.length) parser' := by
  obtain ⟨more,same,each⟩ := parsed.structs
  exact ⟨parsed.topDir,parsed.grants,parsed.next,parsed.cell,more,same,fun strukt member =>
    (each strukt member).imp (fun inside => struct_widen inside fits within) id⟩

theorem readBytes_spec {region : Region} {data : List UInt8} (holds : Holds region s data) (n : Nat)
    (within : k + n ≤ data.length) : readBytes region (s + size k) n = .done ((data.drop k).take n) := by
  induction n generalizing k with
  | zero => rfl
  | succ n ih =>
    have before : k < data.length := by omega
    have later := ih (k := k + 1) (by omega)
    rw [← size_succ,← BitVec.add_assoc] at later
    rw [readBytes,holds.read (List.getElem?_eq_getElem before),Outcome.bind_done,List.drop_eq_getElem_cons before,
      List.take_succ_cons]
    exact later ▸ rfl

theorem isIncludeDirective_spec {region : Region} {data : List UInt8} (holds : Holds region s data)
    (within : k + n ≤ data.length) :
    isIncludeDirective region (s + size k) (size n) = .done (Bano.isIncludeDirective ((data.drop k).take n)) := by
  have fits := holds.fits
  have length : ((data.drop k).take n).length = n := by
    rw [List.length_take,List.length_drop]
    omega
  have known : includeString.length < 2 ^ 64 := by decide
  by_cases eight : n = includeString.length
  · subst eight
    rw [isIncludeDirective,if_neg (not_not.mpr rfl),readBytes_spec holds _ within]
    rfl
  · rw [isIncludeDirective,if_pos (mt (size_inj (by omega) known).mp eight),Bano.isIncludeDirective]
    rw [decide_eq_false fun same => eight (length ▸ congrArg List.length same)]

theorem fileRegion_holds (fits : data.length < 2 ^ 64) : Holds (fileRegion data) 0 data := by
  refine ⟨fits,fun i c found => ?_⟩
  obtain ⟨bound,_⟩ := List.getElem?_eq_some_iff.mp found
  have start : (0 : Size) + size i = size i := BitVec.zero_add _
  rw [fileRegion,start,size_toNat (Nat.lt_trans bound fits)]
  exact found

/-- A file is mapped in a buffer of its own. -/
theorem allocMmapBuf_cases (files : Files) (parser : BanoParser) (path : List UInt8) :
    (∃ allocs, allocMmapBuf files parser path = (none,{ parser with allocs := allocs }) ∧
      allocs.grants = parser.allocs.grants) ∨
    ∃ file, files path = some file ∧ allocMmapBuf files parser path =
      (some (parser.mapped.next,size file.data.length),parser.map file.data parser.allocs.askTwice.2) := by
  cases opened : files path with
  | none => exact .inl ⟨parser.allocs,by simp [allocMmapBuf,opened],rfl⟩
  | some file =>
    have grants := askTwice_grants parser.allocs
    cases asked : parser.allocs.askTwice with
    | mk granted allocs =>
      rw [asked] at grants
      cases granted with
      | false => exact .inl ⟨allocs,by simp [allocMmapBuf,opened,asked],grants⟩
      | true =>
        by_cases empty : file.data = []
        · exact .inl ⟨allocs,by simp [allocMmapBuf,opened,asked,empty],grants⟩
        · exact .inr ⟨file,rfl,by simp only [allocMmapBuf,opened,asked,if_neg empty]⟩

theorem map_maps {parser : BanoParser} (fits : data.length < 2 ^ 64) (allocs : Allocs) :
    Maps (parser.map data allocs) parser.mapped.next 0 data :=
  ⟨_,Heap.alloc_cell_next _ _,rfl,fileRegion_holds fits⟩

/-- What a call on an included file adds lies in that file, or in one that it includes. -/
theorem Parsed.included {parser : BanoParser} {data : List UInt8} {allocs : Allocs}
    (grants : allocs.grants = parser.allocs.grants)
    (parsed : Parsed (parser.map data allocs) parser.mapped.next 0 (size data.length) parser')
    (buf : Ptr) (s n : Size) :
    Parsed parser buf s n parser' := by
  obtain ⟨more,same,each⟩ := parsed.structs
  have kept := parsed.cell parser.mapped.next (Nat.lt_succ_self _)
  refine ⟨parsed.topDir,parsed.grants.trans grants,Nat.le_of_succ_le parsed.next,fun p old => ?_,more,same,
    fun strukt member => .inr ?_⟩
  · exact (parsed.cell p (Nat.lt_succ_of_lt old)).trans (Heap.alloc_cell_other (Nat.ne_of_lt old) _)
  · rcases each strukt member with inside | ⟨file,m,new,cell,inside⟩
    · exact ⟨parser.mapped.next,_,Nat.le_refl _,kept.trans (Heap.alloc_cell_next _ _),inside⟩
    · exact ⟨file,m,Nat.le_of_succ_le new,cell,inside⟩

theorem freeBuf_maps {parser : BanoParser} (maps : Maps parser file p data) :
    freeBuf parser file = .done (parser.unmap file) := by
  obtain ⟨region,found,_⟩ := maps.region
  rw [freeBuf,found,Outcome.bind_done]

/-- Unmapping a new buffer. -/
theorem Parsed.unmap {parser : BanoParser} (parsed : Parsed parser buf s n parser')
    (new : parser.mapped.next ≤ file) :
    Parsed parser buf s n (parser'.unmap file) := by
  obtain ⟨more,same,each⟩ := parsed.structs
  refine ⟨parsed.topDir,parsed.grants,parsed.next,fun p old => ?_,more,same,fun strukt member => ?_⟩
  · have other : p ≠ file := Nat.ne_of_lt (Nat.lt_of_lt_of_le old new)
    exact (Heap.modify_cell_other other _ _).trans (parsed.cell p old)
  · apply (each strukt member).imp id
    rintro ⟨q,m,late,cell,inside⟩
    by_cases here : q = file
    · subst here
      exact ⟨q,{ m with live := false },late,by simp [BanoParser.unmap,cell],inside⟩
    · exact ⟨q,m,late,(Heap.modify_cell_other here _ _).trans cell,inside⟩

/-- A call of parse_buf on a file stays inside of it. -/
def ConfinedOn (parseBuf : ParseBuf) : Prop := ∀ parser file data, Maps parser file 0 data →
  Confined True parser file 0 (size data.length) (parseBuf parser file 0 (size data.length))

/-- The path that a directive at the start of the bytes includes. -/
def includedPath (topDir data : List UInt8) : List UInt8 :=
  let directive := Bano.nextToken data
  let rest := data.drop (directive.1 + directive.2)
  cstr (topDir ++ (rest.drop (Bano.nextToken rest).1).take (Bano.nextToken rest).2)

/-- The call on the file that is included has not returned. -/
def Runs (files : Files) (parseBuf : ParseBuf) (parser : BanoParser) (data : List UInt8) : Prop :=
  ∃ file, files (includedPath parser.topDir data) = some file ∧
    parseBuf (parser.map file.data parser.allocs.askTwice.2) parser.mapped.next 0 (size file.data.length) = .running

section calls

variable (files : Files) {parseBuf : ParseBuf} {parser : BanoParser} {data : List UInt8}

theorem parseInclude_confined (nested : ConfinedOn parseBuf) (region : Region) (holds : Holds region s data)
    (within : (Bano.nextToken data).1 + (Bano.nextToken data).2 ≤ data.length) (buf : Ptr) :
    Confined (Runs files parseBuf parser data) parser buf s (size data.length)
      (parseInclude files parseBuf parser region s (size data.length)
        (size ((Bano.nextToken data).1 + (Bano.nextToken data).2))) := by
  obtain ⟨k,place⟩ : ∃ k, k = (Bano.nextToken data).1 + (Bano.nextToken data).2 := ⟨_,rfl⟩
  rw [← place] at within ⊢
  obtain ⟨o,z,token⟩ : ∃ o z, Bano.nextToken (data.drop k) = (o,z) := ⟨_,_,rfl⟩
  have path : includedPath parser.topDir data = cstr (parser.topDir ++ (data.drop (k + o)).take z) := by
    simp only [includedPath,← place,token,List.drop_drop]
  have read := holds.tokenRead within token
  have bound := read.bound
  have fits := holds.fits
  have same : Parsed parser buf s (size data.length) parser := .refl _ _ _ _
  rw [parseInclude,read.found,Outcome.bind_done]
  split
  · exact .done (.inl rfl) same
  simp only [size_add,size_toNat (show z < 2 ^ 64 by omega)]
  rw [readBytes_spec holds z bound,Outcome.bind_done]
  rw [← path]
  rcases allocMmapBuf_cases files parser (includedPath parser.topDir data) with
    ⟨allocs,missing,grants⟩ | ⟨file,opened,mapped⟩
  · simp only [missing]
    exact .done (.inl rfl) (.asked grants)
  have grants := askTwice_grants parser.allocs
  have short : file.data.length < 2 ^ 64 := Nat.lt_trans file.fits (by decide)
  have maps : Maps (parser.map file.data parser.allocs.askTwice.2) parser.mapped.next 0 file.data := map_maps short _
  have confined := nested _ _ _ maps
  simp only [mapped]
  generalize result : parseBuf (parser.map file.data parser.allocs.askTwice.2) parser.mapped.next 0
    (size file.data.length) = r
    at confined
  cases confined with
  | running =>
    rw [Outcome.bind_running]
    exact .running ⟨file,opened,result⟩
  | @done ret parser' returned parsed =>
    have parsed' := parsed.included grants buf s (size data.length)
    have maps' := maps.parsed parsed
    simp only [Outcome.bind_done]
    by_cases failure : ret = failed
    · rw [if_pos failure,freeBuf_maps maps',Outcome.bind_done]
      exact .done (.inl rfl) (parsed'.unmap (Nat.le_refl _))
    rw [if_neg failure]
    cases asked : parser'.allocs.ask with
    | mk granted allocs' =>
      have more : allocs'.grants = parser'.allocs.grants := (congrArg (fun r => r.2.grants) asked).symm
      cases granted with
      | false =>
        have maps'' : Maps { parser' with allocs := allocs' } parser.mapped.next 0 file.data := maps'
        simp only [freeBuf_maps maps'',Outcome.bind_done]
        exact .done (.inl rfl) (Parsed.unmap (parsed'.trans (.asked more)) (Nat.le_refl _))
      | true =>
        refine .done (.inr ?_) (parsed'.trans ⟨rfl,more,Nat.le_refl _,fun _ _ => rfl,[],by simp⟩)
        rw [← Nat.add_assoc]
        exact holds.size_le bound

theorem parseDirective_confined (nested : ConfinedOn parseBuf) (maps : Maps parser buf s data) :
    Confined (Runs files parseBuf parser data) parser buf s (size data.length)
      (parseDirective files parseBuf parser buf s (size data.length)) := by
  obtain ⟨region,mapped,holds⟩ := maps.region
  obtain ⟨o,z,token⟩ : ∃ o z, Bano.nextToken data = (o,z) := ⟨_,_,rfl⟩
  obtain ⟨read,first,bound,_⟩ := holds.firstToken token
  have same : Parsed parser buf s (size data.length) parser := .refl _ _ _ _
  simp only [parseDirective,mapped,Outcome.bind_done,first]
  by_cases none : z = 0
  · rw [if_pos (read.zero.mpr none)]
    exact .done (.inl rfl) same
  obtain ⟨c,live⟩ := byte_live (s := data) (i := o) (by omega)
  rw [if_neg (mt read.zero.mp none),holds.read live,Outcome.bind_done]
  split
  · exact .done (.inl rfl) same
  rw [isIncludeDirective_spec holds bound,Outcome.bind_done]
  split
  · rw [size_add]
    have includes : Confined (Runs files parseBuf parser data) parser buf s (size data.length) _ :=
      parseInclude_confined files nested region holds (by rw [token]; exact bound) buf
    rwa [token] at includes
  · exact .done (.inr (BitVec.le_def.mpr (Nat.zero_le _))) same

theorem parseDirectiveOrStruct_confined (nested : ConfinedOn parseBuf) (maps : Maps parser buf s data) :
    Confined (Runs files parseBuf parser data) parser buf s (size data.length)
      (parseDirectiveOrStruct files parseBuf parser buf s (size data.length)) := by
  obtain ⟨region,mapped,holds⟩ := maps.region
  obtain ⟨o,z,token⟩ : ∃ o z, Bano.nextToken data = (o,z) := ⟨_,_,rfl⟩
  obtain ⟨read,first,bound,_⟩ := holds.firstToken token
  simp only [parseDirectiveOrStruct,mapped,Outcome.bind_done,first]
  by_cases none : z = 0
  · rw [if_pos (read.zero.mpr none)]
    exact .done (.inr (holds.size_le (by omega))) (.refl _ _ _ _)
  obtain ⟨c,live⟩ := byte_live (s := data) (i := o) (by omega)
  rw [if_neg (mt read.zero.mp none),holds.read live,Outcome.bind_done]
  split
  · exact parseDirective_confined files nested maps
  have grants := askTwice_grants parser.allocs
  cases asked : parser.allocs.askTwice with
  | mk granted allocs =>
    rw [asked] at grants
    cases granted with
    | false => exact .done (.inl rfl) (.asked grants)
    | true =>
      obtain ⟨listed,⟨ret,strukt,allocs'⟩,read',parsed,grants',recorded,gives⟩ :=
        parseStruct_spec holds (size_of_toNat s) buf allocs structInit
      simp only [parsed,Outcome.bind_done]
      refine .done ?_ ⟨rfl,grants'.trans grants,Nat.le_refl _,fun _ _ => rfl,[strukt],rfl,?_⟩
      · exact holds.struct_bounded read' gives
      · intro added member
        obtain rfl := List.mem_singleton.mp member
        exact .inl recorded

theorem parseDirectiveOrStruct_at (nested : ConfinedOn parseBuf) (maps : Maps parser buf s data)
    (within : k ≤ data.length) :
    Confined (Runs files parseBuf parser (data.drop k)) parser buf (s + size k) (size data.length - size k)
      (parseDirectiveOrStruct files parseBuf parser buf (s + size k) (size data.length - size k)) := by
  obtain ⟨_,_,holds⟩ := maps.region
  rw [holds.rest within]
  exact parseDirectiveOrStruct_confined files nested (maps.drop k)

/-- The next place is not behind the end. -/
theorem parseBufTurn_cases (nested : ConfinedOn parseBuf) (maps : Maps parser buf s data) (within : k ≤ data.length) :
    parseBufTurn files parseBuf buf s (size data.length) (size k,parser) = .running ∨
    Ends (fun t => (∃ m ≤ data.length, t.1 = size m) ∧ Parsed parser buf s (size data.length) t.2)
      (fun r => (r.1 = failed ∨ r.1 ≤ size data.length) ∧ Parsed parser buf s (size data.length) r.2)
      (parseBufTurn files parseBuf buf s (size data.length) (size k,parser)) := by
  obtain ⟨_,_,holds⟩ := maps.region
  have fits := holds.fits
  rw [parseBufTurn]
  split
  · exact .inr (.stop ⟨.inr (holds.size_le within),.refl _ _ _ _⟩)
  have confined := parseDirectiveOrStruct_at files nested maps within
  generalize parseDirectiveOrStruct files parseBuf parser buf (s + size k) (size data.length - size k) = r at confined
  cases confined with
  | running => exact .inl rfl
  | @done j parser' returned parsed =>
    refine .inr ?_
    have parsed' := parsed.widen fits within
    rw [Outcome.bind_done]
    by_cases failure : j = failed
    · simp only [if_pos failure]
      exact .stop ⟨.inl rfl,parsed'⟩
    · simp only [if_neg failure]
      have most := returned.resolve_left failure
      rw [size_sub fits within,BitVec.le_def,size_toNat (by omega)] at most
      refine .next ⟨⟨k + j.toNat,by omega,?_⟩,parsed'⟩
      rw [← size_add,size_of_toNat]

end calls

theorem parseBufFrom_succ (files : Files) (fuel : Nat) (parser : BanoParser) (buf : Ptr) (s n i : Size) :
    parseBufFrom files (fuel + 1) parser buf s n i =
      (parseBufTurn files (parseBuf files fuel) buf s n (i,parser) >>= fun t =>
        match t with
        | .stop result => .done result
        | .next (i,parser) => parseBufFrom files fuel parser buf s n i) := rfl

theorem parseBufFrom_confined {data : List UInt8} (files : Files) (fuel : Nat) (parser : BanoParser)
    (maps : Maps parser buf s data) (within : k ≤ data.length) :
    Confined True parser buf s (size data.length)
    (parseBufFrom files fuel parser buf s (size data.length) (size k)) := by
  induction fuel generalizing parser buf s data k with
  | zero => exact .running trivial
  | succ fuel ih =>
    have nested : ConfinedOn (parseBuf files fuel) := fun parser file data maps => ih parser maps (Nat.zero_le _)
    rw [parseBufFrom_succ]
    rcases parseBufTurn_cases files nested maps within with running | ends
    · rw [running]
      exact .running trivial
    generalize parseBufTurn files (parseBuf files fuel) buf s (size data.length) (size k,parser) = r at ends
    cases ends with
    | stop result => exact .done result.1 result.2
    | @next t later =>
      obtain ⟨i,parser'⟩ := t
      obtain ⟨⟨m,inside,rfl⟩,parsed⟩ := later
      have rest := ih parser' (maps.parsed parsed) inside
      simp only [Outcome.bind_done]
      generalize parseBufFrom files fuel parser' buf s (size data.length) (size m) = r at rest
      cases rest with
      | running => exact .running trivial
      | done returned parsed' => exact .done returned (parsed.trans parsed')

/-- The places at which the loop of parse_buf tests for the end. -/
def BufStarts (files : Files) (buf : Ptr) (s n : Size) : Size × BanoParser → Size × BanoParser → Prop :=
  Relation.ReflTransGen fun t u => ∃ fuel, parseBufTurn files (parseBuf files fuel) buf s n t = .done (.next u)

theorem bufStarts_inside {data : List UInt8} {parser : BanoParser} (maps : Maps parser buf s data)
    (starts : BufStarts files buf s (size data.length) (0,parser) t) : Inside data t.1 ∧ Maps t.2 buf s data := by
  induction starts with
  | refl => exact ⟨⟨0,Nat.zero_le _,rfl⟩,maps⟩
  | @tail t u _ turn ih =>
    obtain ⟨i,parser'⟩ := t
    obtain ⟨⟨⟨k,within,rfl⟩,maps'⟩,fuel,turn⟩ := And.intro ih turn
    have nested : ConfinedOn (parseBuf files fuel) := fun parser file data maps =>
      parseBufFrom_confined files fuel parser maps (Nat.zero_le _)
    rcases parseBufTurn_cases files nested maps' within with running | ends
    · exact nomatch running.symm.trans turn
    · cases turn ▸ ends with
      | next later => exact ⟨later.1,maps'.parsed later.2⟩

/-- What the parser functions do with n bytes at `s`. -/
structure StaysInside (files : Files) (parser : BanoParser) (buf : Ptr) (region : Region) (s : Size)
    (data : List UInt8) : Prop where
  token : ∃ tok, nextToken region s (size data.length) = .done tok ∧ IsToken data tok.1.toNat tok.2.toNat
  pair : ∀ pair, ∃ ret pair', parsePair region buf pair s (size data.length) = .done (ret,pair') ∧
    (ret = failed ∨ ret ≤ size data.length) ∧ ParserPair.Recorded buf s (size data.length) pair pair'
  struct : ∀ allocs strukt, ∃ ret strukt' allocs',
    parseStruct region buf allocs strukt s (size data.length) = .done (ret,strukt',allocs') ∧
    (ret = failed ∨ ret ≤ size data.length) ∧ ParserStruct.Recorded buf s (size data.length) strukt strukt'
  directive : ∀ fuel, Confined (Runs files (parseBuf files fuel) parser data) parser buf s (size data.length)
    (parseDirective files (parseBuf files fuel) parser buf s (size data.length))
  directiveOrStruct : ∀ fuel, Confined (Runs files (parseBuf files fuel) parser data) parser buf s (size data.length)
    (parseDirectiveOrStruct files (parseBuf files fuel) parser buf s (size data.length))
  seeks : ∀ stops i j, Inside data i → Starts (seekTurn region s (size data.length) stops) i j → Inside data j
  skips : ∀ i, Starts (skipTurn region s (size data.length)) 0 i → Inside data i
  turns : ∀ t, BufStarts files buf s (size data.length) (0,parser) t → Inside data t.1

/-- Nothing but the n bytes at `s` can be read in the buffer, and the calls still have their results. -/
theorem parser_staysInside (files : Files) {parser : BanoParser} (cell : parser.mapped.cell buf = some m)
    (live : m.live = true)
    (only : HoldsOnly m.region s data) : StaysInside files parser buf m.region s data := by
  have holds := only.toHolds
  have maps : Maps parser buf s data := ⟨m,cell,live,holds⟩
  have nested : ∀ fuel, ConfinedOn (parseBuf files fuel) := fun fuel parser file data maps =>
    parseBufFrom_confined files fuel parser maps (Nat.zero_le _)
  refine ⟨⟨_,nextToken_size holds,?_⟩,fun pair => ?_,fun allocs strukt => ?_,
    fun fuel => parseDirective_confined files (nested fuel) maps,
    fun fuel => parseDirectiveOrStruct_confined files (nested fuel) maps,fun stops i j => seek_starts holds stops,
    fun i => skip_starts holds ⟨0,Nat.zero_le _,rfl⟩,fun t starts => (bufStarts_inside maps starts).1⟩
  · have bound := nextToken_le data
    have fits := holds.fits
    simp only [size_toNat (show (Bano.nextToken data).1 < 2 ^ 64 by omega),
      size_toNat (show (Bano.nextToken data).2 < 2 ^ 64 by omega)]
    exact nextToken_isToken data
  · obtain ⟨ret,pair',parsed,recorded,gives⟩ := parsePair_spec holds (size_of_toNat s) buf pair
    exact ⟨ret,pair',parsed,holds.pair_bounded gives,recorded⟩
  · obtain ⟨listed,⟨ret,strukt',allocs'⟩,read,parsed,_,recorded,gives⟩ :=
      parseStruct_spec holds (size_of_toNat s) buf allocs strukt
    exact ⟨ret,strukt',allocs',parsed,holds.struct_bounded read gives,recorded⟩

theorem fileRegion_only (fits : data.length < 2 ^ 64) : HoldsOnly (fileRegion data) 0 data where
  toHolds := fileRegion_holds fits
  only := by
    intro p beyond
    have start : p - 0 = p := BitVec.sub_zero p
    rw [start] at beyond
    exact List.getElem?_eq_none beyond

/-- A buffer with a struct of one pair. -/
def oneStruct : List UInt8 := "a { b = c }".toList.map Char.toUInt8

/-- A parser that has just mapped it, and gets every allocation but the fourth one. -/
def mappedOnce : BanoParser := BanoParser.map ⟨[],[],[],Heap.empty,⟨fun i => i != 3,0⟩⟩ oneStruct
    ⟨fun i => i != 3,0⟩

theorem parser_staysInside_struct : StaysInside (fun _ => none) mappedOnce 0 (fileRegion oneStruct) 0 oneStruct :=
  parser_staysInside (fun _ => none) (m := ⟨size oneStruct.length,fileRegion oneStruct,true⟩) rfl rfl
    (fileRegion_only (by decide))

example : nextToken (fileRegion oneStruct) 5 6 = .done (1,1) := by decide

end Bano.SizeT
