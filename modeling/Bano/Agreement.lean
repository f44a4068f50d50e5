import Bano.ParserTermination
import Bano.Confined

/-! While every allocation is granted, the parser over memory does what the list model does: it returns the same
sizes and fails on the same inputs, and a successful call adds the structs of the list model. -/
namespace Bano.SizeT

open Lib

/-- The buffers of the list model are mapped. -/
structure MapsAll (parser : BanoParser) (listed : Bano.BanoParser) : Prop where
  topDir : parser.topDir = listed.topDir
  granted : ∀ i, parser.allocs.grants i = true
  next : parser.mapped.next = listed.mapped.next
  cell : ∀ p data, listed.mapped.cell p = some data →
    parser.mapped.cell p = some ⟨size data.length,fileRegion data,true⟩

structure Alike (parser : BanoParser) (listed : Bano.BanoParser) : Prop extends MapsAll parser listed where
  bufs : parser.bufs = listed.bufs
  structs : parser.structs = listed.structs.map storedStruct

/-- Both calls are running, both failed, or both returned a size; `before` is the parser they started with. -/
inductive Same (before : Bano.BanoParser) (n : Nat) :
    Outcome (Size × BanoParser) → Outcome (Option Nat × Bano.BanoParser) → Prop where
  | running : Same before n .running .running
  | failed : MapsAll parser listed → Keeps before listed → Same before n (.done (failed,parser)) (.done (none,listed))
  | done : Alike parser listed → Keeps before listed → k ≤ n →
      Same before n (.done (size k,parser)) (.done (some k,listed))

/-- Calls on a file that is mapped in both. -/
def SameOn (parseBuf : ParseBuf)
    (listedBuf : Bano.BanoParser → Ptr → List UInt8 → Outcome (Option Nat × Bano.BanoParser)) : Prop :=
  ∀ parser listed file data, Alike parser listed → listed.mapped.cell file = some data → data.length < 2 ^ 63 →
    listed.topDir.length ≤ parserPathlen →
    Same listed data.length (parseBuf parser file 0 (size data.length)) (listedBuf listed file data)

theorem Same.mono {before : Bano.BanoParser} (same : Same before n r listed)
    (kept : Keeps start before) (more : n ≤ m) :
    Same start m r listed := by
  cases same with
  | running => exact .running
  | failed maps keeps => exact .failed maps (kept.trans keeps)
  | done alike keeps within => exact .done alike (kept.trans keeps) (Nat.le_trans within more)

theorem MapsAll.maps {parser : BanoParser} {listed : Bano.BanoParser} (all : MapsAll parser listed)
    (cell : listed.mapped.cell buf = some data) (short : data.length < 2 ^ 63) : Maps parser buf 0 data :=
  ⟨_,all.cell buf data cell,rfl,fileRegion_holds (by omega)⟩

theorem granted_refuses {allocs : Allocs} (granted : ∀ i, allocs.grants i = true) : ¬allocs.Refuses := by
  rintro ⟨i,refused⟩
  exact nomatch (granted i).symm.trans refused

theorem granted_askTwice {allocs : Allocs} (granted : ∀ i, allocs.grants i = true) :
    ∃ allocs', allocs.askTwice = (true,allocs') ∧
    allocs'.grants = allocs.grants :=
  ⟨{ allocs with asked := allocs.asked + 2 },by simp [Allocs.askTwice,Allocs.ask,granted],rfl⟩

theorem Alike.mapFile {parser : BanoParser} {listed : Bano.BanoParser} {allocs : Allocs}
    (alike : Alike parser listed) (data : List UInt8)
    (grants : allocs.grants = parser.allocs.grants) : Alike (parser.map data allocs) (mapFile listed data) := by
  refine ⟨⟨alike.topDir,fun i => (congrFun grants i).trans (alike.granted i),congrArg Nat.succ alike.next,
    fun p d live => ?_⟩,
    alike.bufs,alike.structs⟩
  have old : (listed.mapped.alloc data).cell p = some d := live
  by_cases here : p = listed.mapped.next
  · subst here
    rw [Heap.alloc_cell_next] at old
    obtain rfl := Option.some.inj old
    rw [← alike.next]
    exact Heap.alloc_cell_next _ _
  · rw [Heap.alloc_cell_other here] at old
    have other : p ≠ parser.mapped.next := alike.next ▸ here
    exact (Heap.alloc_cell_other other _).trans (alike.cell p d old)

/-- Unmapping the same buffer. -/
theorem MapsAll.unmap {parser : BanoParser} {listed listed' : Bano.BanoParser} (all : MapsAll parser listed)
    (freed : Bano.freeBuf listed file = .done listed') : MapsAll (parser.unmap file) listed' := by
  cases live : listed.mapped.cell file with
  | none => simp [Bano.freeBuf,Heap.free,live,Outcome.ofOption] at freed
  | some data =>
    obtain rfl : _ = listed' := by simpa [Bano.freeBuf,Heap.free_live live] using freed
    refine ⟨all.topDir,all.granted,all.next,fun p d cell => ?_⟩
    have cell' : (listed.mapped.erase file).cell p = some d := cell
    by_cases here : p = file
    · subst here
      simp at cell'
    · rw [Heap.erase_cell_other here] at cell'
      exact (Heap.modify_cell_other here _ _).trans (all.cell p d cell')

theorem MapsAll.asked {parser : BanoParser} {allocs : Allocs} (all : MapsAll parser listed)
    (grants : allocs.grants = parser.allocs.grants) : MapsAll { parser with allocs := allocs } listed :=
  ⟨all.topDir,fun i => (congrFun grants i).trans (all.granted i),all.next,all.cell⟩

/-- The files, as the list model sees them. -/
def Files.listed (files : Files) : FileSystem := fun path => (files path).map File.data

section calls

variable (files : Files) {parseBuf : ParseBuf}
  {listedBuf : Bano.BanoParser → Ptr → List UInt8 → Outcome (Option Nat × Bano.BanoParser)}
  {parser : BanoParser} {listed : Bano.BanoParser} {data : List UInt8}

/-- Both open the file, or neither does. -/
theorem allocMmapBuf_same (alike : Alike parser listed) (path : List UInt8) :
    (∃ allocs, allocMmapBuf files parser path = (none,{ parser with allocs := allocs }) ∧
      allocs.grants = parser.allocs.grants ∧
      Bano.allocMmapBuf files.listed listed path = none) ∨
    ∃ (file : File) (allocs : Allocs), allocMmapBuf files parser path =
      (some (listed.mapped.next,size file.data.length),parser.map file.data allocs) ∧
      allocs.grants = parser.allocs.grants ∧
      Bano.allocMmapBuf files.listed listed path =
        some (listed.mapped.next,file.data,Bano.mapFile listed file.data) := by
  obtain ⟨allocs,asked,grants⟩ := granted_askTwice alike.granted
  cases opened : files path with
  | none => exact .inl ⟨parser.allocs,by simp [allocMmapBuf,opened],rfl,
      by simp [Bano.allocMmapBuf,Files.listed,opened]⟩
  | some file =>
    by_cases empty : file.data = []
    · exact .inl ⟨allocs,by simp [allocMmapBuf,opened,asked,empty],grants,
        by simp [Bano.allocMmapBuf,Files.listed,opened,empty]⟩
    · refine .inr ⟨file,allocs,?_,grants,?_⟩
      · simp only [allocMmapBuf,opened,asked,if_neg empty,alike.next,size]
      · obtain ⟨c,rest,same⟩ := List.exists_cons_of_ne_nil empty
        simp [Bano.allocMmapBuf,Files.listed,opened,same,Bano.mapFile]

/-- The length test of parse_directive does not wrap. -/
theorem tooLong_iff (dir : d ≤ parserPathlen) (short : z < 2 ^ 63) :
    BitVec.ofNat 64 parserPathlen ≤ BitVec.ofNat 64 d + size z ↔ d + z ≥ parserPathlen := by
  have limit : parserPathlen < 2 ^ 63 := by decide
  rw [show BitVec.ofNat 64 d + size z = size (d + z) from size_add d z,BitVec.le_def]
  rw [show (BitVec.ofNat 64 parserPathlen).toNat = parserPathlen from size_toNat (by omega),size_toNat (by omega)]

/-- The directive .include of both, once the token after it is read. -/
theorem parseInclude_same (nested : SameOn parseBuf listedBuf) (alike : Alike parser listed)
    (holds : Holds region s data)
    (short : data.length < 2 ^ 63) (dir : listed.topDir.length ≤ parserPathlen) (within : k ≤ data.length)
    (token : Bano.nextToken (data.drop k) = (o,z)) :
    Same listed data.length (parseInclude files parseBuf parser region s (size data.length) (size k))
      (if z = 0 ∨ listed.topDir.length + z ≥ parserPathlen then .done (none,listed)
      else
        match Bano.allocMmapBuf files.listed listed (cstr (listed.topDir ++ (data.drop (k + o)).take z)) with
        | none => .done (none,listed)
        | some (buf,content,parser) => listedBuf parser buf content >>= fun
          | (none,parser) => Bano.freeBuf parser buf >>= fun parser => .done (none,parser)
          | (some _,parser) => .done (some (k + o + z),{ parser with bufs := parser.bufs ++ [buf] })) := by
  have read := holds.tokenRead within token
  have bound := read.bound
  have limit : size z = 0 ∨ BitVec.ofNat 64 parserPathlen ≤ BitVec.ofNat 64 parser.topDir.length + size z ↔
      z = 0 ∨ listed.topDir.length + z ≥ parserPathlen := by
    rw [alike.topDir]
    exact or_congr read.zero (tooLong_iff dir (by omega))
  rw [parseInclude,read.found,Outcome.bind_done]
  by_cases bad : z = 0 ∨ listed.topDir.length + z ≥ parserPathlen
  · rw [if_pos bad]
    simp only [limit,if_pos bad]
    exact .failed alike.toMapsAll .rfl
  rw [if_neg bad]
  simp only [limit,if_neg bad]
  simp only [size_add,size_toNat (show z < 2 ^ 64 by omega)]
  rw [readBytes_spec holds z bound,Outcome.bind_done,alike.topDir]
  generalize cstr (listed.topDir ++ (data.drop (k + o)).take z) = path
  rcases allocMmapBuf_same files alike path with ⟨allocs,missing,grants,none⟩ | ⟨file,allocs,mapped,grants,opened⟩
  · simp only [missing,none]
    exact .failed (alike.asked grants) .rfl
  simp only [mapped,opened]
  have mapping := alike.mapFile file.data grants
  have same := nested _ _ listed.mapped.next file.data mapping (Heap.alloc_cell_next _ _) file.fits dir
  generalize parseBuf (parser.map file.data allocs) listed.mapped.next 0 (size file.data.length) = r at same
  generalize listedBuf (Bano.mapFile listed file.data) listed.mapped.next file.data = r' at same
  cases same with
  | running => exact .running
  | @failed parser' listed' all kept =>
    obtain ⟨listed'',freed,kept'⟩ := freeBuf_mapFile kept
    have live : Maps parser' listed.mapped.next 0 file.data := all.maps
      ((kept.cell _ (Nat.lt_succ_self _)).trans (Heap.alloc_cell_next _ _)) file.fits
    simp only [Outcome.bind_done,if_true,freeBuf_maps live,freed]
    exact .failed (all.unmap freed) kept'
  | @done parser' listed' j alike' kept le =>
    have fits := file.fits
    have asked : parser'.allocs.ask = (true,{ parser'.allocs with asked := parser'.allocs.asked + 1 }) := by
      rw [Allocs.ask,alike'.granted]
    simp only [Outcome.bind_done,if_neg (size_ne_failed (show j < 2 ^ 64 - 1 by omega)),asked,← Nat.add_assoc]
    have before := (mapFile_keeps listed file.data).trans kept
    exact .done ⟨⟨alike'.topDir,alike'.granted,alike'.next,alike'.cell⟩,
      congrArg (· ++ [_]) alike'.bufs,alike'.structs⟩
      ⟨before.topDir,before.next,before.cell⟩ bound

theorem parseDirective_same (nested : SameOn parseBuf listedBuf) (alike : Alike parser listed)
    (maps : Maps parser buf s data)
    (short : data.length < 2 ^ 63) (dir : listed.topDir.length ≤ parserPathlen) :
    Same listed data.length (parseDirective files parseBuf parser buf s (size data.length))
      (Bano.parseDirective files.listed listedBuf listed data) := by
  obtain ⟨region,mapped,holds⟩ := maps.region
  obtain ⟨o,z,token⟩ : ∃ o z, Bano.nextToken data = (o,z) := ⟨_,_,rfl⟩
  obtain ⟨read,first,bound,_⟩ := holds.firstToken token
  simp only [parseDirective,Bano.parseDirective,mapped,Outcome.bind_done,first,token]
  by_cases none : z = 0
  · rw [if_pos (read.zero.mpr none),if_pos none]
    exact .failed alike.toMapsAll .rfl
  obtain ⟨c,live⟩ := byte_live (s := data) (i := o) (by omega)
  rw [if_neg (mt read.zero.mp none),if_neg none,holds.read live,live,Outcome.ofOption_some,Outcome.bind_done,
    Outcome.bind_done]
  by_cases plain : isDirective c = false
  · rw [if_pos plain,if_pos plain]
    exact .failed alike.toMapsAll .rfl
  rw [if_neg plain,if_neg plain,isIncludeDirective_spec holds bound,Outcome.bind_done]
  by_cases known : Bano.isIncludeDirective ((data.drop o).take z) = true
  · rw [if_pos known,if_pos known,size_add]
    exact parseInclude_same files nested alike holds short dir bound rfl
  · rw [if_neg known,if_neg known]
    exact .done alike .rfl (Nat.zero_le _)

theorem parseDirectiveOrStruct_same (nested : SameOn parseBuf listedBuf) (alike : Alike parser listed)
    (maps : Maps parser buf s data) (short : data.length < 2 ^ 63) (dir : listed.topDir.length ≤ parserPathlen)
    (place : size start = s) : Same listed data.length (parseDirectiveOrStruct files parseBuf parser buf s
      (size data.length))
      (Bano.parseDirectiveOrStruct files.listed listedBuf listed buf start data) := by
  obtain ⟨region,mapped,holds⟩ := maps.region
  obtain ⟨o,z,token⟩ : ∃ o z, Bano.nextToken data = (o,z) := ⟨_,_,rfl⟩
  obtain ⟨read,first,bound,_⟩ := holds.firstToken token
  simp only [parseDirectiveOrStruct,Bano.parseDirectiveOrStruct,mapped,Outcome.bind_done,first,token]
  by_cases none : z = 0
  · rw [if_pos (read.zero.mpr none),if_pos none]
    exact .done alike .rfl (Nat.le_trans (Nat.le_add_right _ _) bound)
  obtain ⟨c,live⟩ := byte_live (s := data) (i := o) (by omega)
  rw [if_neg (mt read.zero.mp none),if_neg none,holds.read live,live,Outcome.ofOption_some,Outcome.bind_done,
    Outcome.bind_done]
  by_cases dot : isDirective c = true
  · rw [if_pos dot,if_pos dot]
    exact parseDirective_same files nested alike maps short dir
  rw [if_neg dot,if_neg dot]
  obtain ⟨allocs,asked,grants⟩ := granted_askTwice alike.granted
  obtain ⟨found,⟨ret,strukt,allocs'⟩,returned,parsed,grants',_,gives⟩ :=
    parseStruct_spec holds place buf allocs structInit
  have granted := fun i => (congrFun grants i).trans (alike.granted i)
  simp only [asked,parsed,returned,Outcome.bind_done]
  have later : MapsAll { parser with allocs := allocs' } listed := alike.asked (grants'.trans grants)
  cases found with
  | none =>
    obtain rfl : ret = failed := gives
    exact .failed ⟨later.topDir,later.granted,later.next,later.cell⟩ .rfl
  | some r =>
    obtain ⟨j,q⟩ := r
    obtain ⟨rfl,rfl⟩ : ret = size j ∧ strukt = storedStruct q := gives.resolve_right fun fails =>
      granted_refuses granted fails.2
    obtain ⟨_,range,ran⟩ := parseStruct_size data
    obtain ⟨_,again,sized⟩ := ran buf start
    obtain rfl := Outcome.done.inj (again.symm.trans returned)
    refine .done ⟨⟨later.topDir,later.granted,later.next,later.cell⟩,alike.bufs,?_⟩ ⟨rfl,
      Nat.le_refl _,fun _ _ => rfl⟩
      (range j sized.symm).2
    simp [alike.structs]

end calls

/-- The loop of parse_buf, turn by turn, from the same place. -/
theorem parseBufFrom_same (files : Files) (fuel : Nat) {parser : BanoParser} {listed : Bano.BanoParser}
    {data : List UInt8}
    (alike : Alike parser listed) (cell : listed.mapped.cell buf = some data) (short : data.length < 2 ^ 63)
    (dir : listed.topDir.length ≤ parserPathlen) (within : i ≤ data.length) :
    Same listed data.length (parseBufFrom files fuel parser buf 0 (size data.length) (size i))
      (Bano.parseBufFrom files.listed fuel listed buf data i) := by
  induction fuel generalizing parser listed buf data i with
  | zero => exact .running
  | succ fuel ih =>
    have nested : SameOn (parseBuf files fuel) (fun parser buf data => Bano.parseBufFrom files.listed fuel
        parser buf data 0) :=
      fun parser listed file data alike cell short dir => ih alike cell short dir (Nat.zero_le _)
    have maps := alike.maps cell short
    obtain ⟨_,_,holds⟩ := maps.region
    rw [parseBufFrom_succ,parseBufTurn,Bano.parseBufFrom]
    by_cases atEnd : i = data.length
    · rw [if_pos ((holds.size_eq within).mpr atEnd),if_pos atEnd]
      exact .done alike .rfl within
    rw [if_neg (mt (holds.size_eq within).mp atEnd),if_neg atEnd,holds.rest within]
    have length : (data.drop i).length = data.length - i := List.length_drop
    have same := parseDirectiveOrStruct_same files nested alike (maps.drop i) (by omega) dir
      (BitVec.zero_add (size i)).symm
    generalize parseDirectiveOrStruct files (parseBuf files fuel) parser buf (0 + size i)
      (size (data.drop i).length) = r at same
    dsimp only
    generalize Bano.parseDirectiveOrStruct files.listed (fun parser buf data => Bano.parseBufFrom files.listed fuel
      parser buf data 0)
      listed buf i (data.drop i) = r' at same
    cases same with
    | running => exact .running
    | failed all kept => exact .failed all kept
    | @done parser' listed' j alike' kept le =>
      have differs : size j ≠ failed := size_ne_failed (by omega)
      have cell' : listed'.mapped.cell buf = some data := (kept.cell buf (Heap.lt_next cell)).trans cell
      have later := ih alike' cell' short (kept.topDir ▸ dir) (show i + j ≤ data.length by omega)
      simp only [Outcome.bind_done,if_neg differs,size_add]
      exact later.mono kept (Nat.le_refl _)

/-- parse_buf succeeds on the files that the grammar accepts. -/
theorem parseBuf_accepted (files : Files) {parser : BanoParser} {listed : Bano.BanoParser} {data : List UInt8}
    (alike : Alike parser listed) (cell : listed.mapped.cell buf = some data) (short : data.length < 2 ^ 63)
    (dir : listed.topDir.length ≤ parserPathlen) :
    (∃ fuel ret parser', parseBuf files fuel parser buf 0 (size data.length) = .done (ret,parser') ∧ ret ≠ failed) ↔
      Accepted files.listed listed.topDir data 0 := by
  have same := fun fuel => parseBufFrom_same files fuel alike cell short dir (Nat.zero_le _)
  have agrees : ∀ fuel, Agrees listed data.length (scan files.listed listed.topDir fuel data 0)
      (Bano.parseBufFrom files.listed fuel listed buf data 0) := fun fuel => parseBufFrom_scan (Nat.zero_le _)
  constructor
  · rintro ⟨fuel,ret,parser',returned,succeeds⟩
    have both := same fuel
    have told := agrees fuel
    rw [show parseBufFrom files fuel parser buf 0 (size data.length) (size 0) = .done (ret,parser')
      from returned] at both
    cases result : scan files.listed listed.topDir fuel data 0 with
    | running => rw [result] at told; rw [told] at both; cases both
    | fault => rw [result] at told; exact told.elim
    | done ok =>
      rw [result] at told
      obtain ⟨listed',read,_⟩ := told
      cases ok with
      | true => exact scan_accepted result
      | false =>
        rw [read] at both
        cases both
        exact absurd rfl succeeds
  · intro accepted
    obtain ⟨fuel,result⟩ := accepted_scan accepted
    have both := same fuel
    have told := agrees fuel
    rw [result] at told
    obtain ⟨listed',read,_⟩ := told
    rw [read] at both
    generalize returned : parseBufFrom files fuel parser buf 0 (size data.length) (size 0) = r at both
    cases both with
    | done _ _ le => exact ⟨fuel,_,_,returned,size_ne_failed (by omega)⟩

end Bano.SizeT
