import Bano.Buffers
import Bano.Descriptions
import Bano.Lib.Fuel

/-! load_nodl_file: the file is parsed, its keyvals are read from the mapped buffers, and the buffers are released. -/
namespace Bano

open Lib

/-- The bytes of a string, while its buffer is mapped. -/
def BanoString.read (mapped : Heap (List UInt8)) (string : BanoString) : Option Token := do
  let data ← mapped.cell string.buf
  if string.data + string.size ≤ data.length then some (string.bytes data) else none

def ParserPair.read (mapped : Heap (List UInt8)) (pair : ParserPair) : Option (Token × Token) := do
  some (← pair.key.read mapped,← pair.val.read mapped)

def ParserStruct.read (mapped : Heap (List UInt8)) (strukt : ParserStruct) : Option ConfStruct := do
  some ⟨← strukt.name.read mapped,← strukt.pairs.mapM (ParserPair.read mapped)⟩

/-- `memory` is that of each struct, by its place. -/
def loadNodlFile (files : FileSystem) (memory : Nat → KeyvalMemory) (fuel : Nat) (path : List UInt8)
    (keyvals : Dict KeyvalInfo) :
    Outcome (Int × Dict KeyvalInfo) := do
  let (err,parser) ← banoParserLoadFile files fuel path
  if err ≠ 0 then .done (-1,keyvals)
  else
    let structs ← .ofOption (parser.structs.mapM (ParserStruct.read parser.mapped))
    let (err,keyvals) ← .ofOption (applyNodlStructs (structs.zipIdx.map fun x => (x.1,memory x.2)) keyvals)
    let _ ← banoParserFini parser
    .done (err,keyvals)

theorem parseDirective_below {nested nested' : BanoParser → Ptr → List UInt8 → Outcome (Option Nat × BanoParser)}
    (below : ∀ parser buf data, Below (nested parser buf data) (nested' parser buf data)) (parser : BanoParser)
    (s : List UInt8) :
    Below (parseDirective fs nested parser s) (parseDirective fs nested' parser s) := by
  unfold parseDirective
  refine .ite .rfl (.bind .rfl fun c => .ite .rfl (.ite (.ite .rfl ?_) .rfl))
  dsimp only
  split
  · exact .rfl
  · exact .bind (below _ _ _) fun _ => .rfl

theorem parseDirectiveOrStruct_below {nested nested' : BanoParser → Ptr → List UInt8 →
    Outcome (Option Nat × BanoParser)}
    (below : ∀ parser buf data, Below (nested parser buf data) (nested' parser buf data))
    (parser : BanoParser) (buf : Ptr)
    (start : Nat) (s : List UInt8) :
    Below (parseDirectiveOrStruct fs nested parser buf start s)
    (parseDirectiveOrStruct fs nested' parser buf start s) := by
  unfold parseDirectiveOrStruct
  exact .ite .rfl (.bind .rfl fun c => .ite (parseDirective_below below parser s) .rfl)

/-- With more fuel the parser does the same, if it returned. -/
theorem parseBufFrom_below (more : fuel ≤ fuel') (parser : BanoParser) (buf : Ptr) (s : List UInt8) (i : Nat) :
    Below (parseBufFrom fs fuel parser buf s i) (parseBufFrom fs fuel' parser buf s i) := by
  induction fuel generalizing fuel' parser buf s i with
  | zero => exact .inl rfl
  | succ fuel ih =>
    obtain ⟨fuel',rfl⟩ := Nat.exists_eq_add_of_le' (Nat.one_le_of_lt more)
    have ih := fun parser buf s i => ih (Nat.le_of_succ_le_succ more) parser buf s i
    rw [parseBufFrom,parseBufFrom]
    refine .ite .rfl (.bind (parseDirectiveOrStruct_below (fun _ _ _ => ih _ _ _ 0) _ _ _ _) ?_)
    rintro ⟨_ | j,parser⟩
    · exact .rfl
    · exact ih _ _ _ _

theorem banoParserLoadFile_below (more : fuel ≤ fuel') (path : List UInt8) :
    Below (banoParserLoadFile fs fuel path) (banoParserLoadFile fs fuel' path) := by
  unfold banoParserLoadFile
  dsimp only
  split
  · exact .rfl
  · split
    · exact .rfl
    · exact .bind (parseBufFrom_below more _ _ _ _) fun _ => .rfl

theorem loadNodlFile_below {files : FileSystem} (memory : Nat → KeyvalMemory) (path : List UInt8)
    (d : Dict KeyvalInfo)
    (more : fuel ≤ fuel') : Below (loadNodlFile files memory fuel path d) (loadNodlFile files memory fuel' path d) :=
  .bind (banoParserLoadFile_below more path) fun _ => .rfl

theorem BanoString.read_inside {string : BanoString} {data : List UInt8} {buf : Ptr}
    (inside : string.Inside buf data.length) (live : mapped.cell buf = some data) :
    string.read mapped = some (string.bytes data) := by
  obtain ⟨rfl,bound⟩ := inside
  simp [BanoString.read,live,bound]

theorem mapM_some {read : α → Option β} {write : α → β} (xs : List α)
    (some' : ∀ x ∈ xs, read x = some (write x)) :
    xs.mapM read = some (xs.map write) := by
  induction xs with
  | nil => rfl
  | cons x xs ih =>
    obtain ⟨here,later⟩ := List.forall_mem_cons.mp some'
    simp [here,ih later]

theorem ParserStruct.read_inside {strukt : ParserStruct} {data : List UInt8} {buf : Ptr}
    (inside : strukt.Inside buf data.length)
    (live : mapped.cell buf = some data) : strukt.read mapped = some (strukt.content data) := by
  have pairs : ∀ pair ∈ strukt.pairs, pair.read mapped = some (pair.content data) := by
    intro pair member
    obtain ⟨key,val⟩ := inside.2 pair member
    simp [ParserPair.read,ParserPair.content,BanoString.read_inside key live,BanoString.read_inside val live]
  simp [ParserStruct.read,ParserStruct.content,BanoString.read_inside inside.1 live,mapM_some _ pairs]

/-- The structs that are backed can be read. -/
theorem structs_read {structs : List ParserStruct} (backed : ∀ strukt ∈ structs, Backed parser strukt) :
    ∃ confs, structs.mapM (ParserStruct.read parser.mapped) = some confs := by
  induction structs with
  | nil => exact ⟨[],rfl⟩
  | cons strukt structs ih =>
    obtain ⟨here,later⟩ := List.forall_mem_cons.mp backed
    obtain ⟨confs,rest⟩ := ih later
    obtain ⟨_,data,_,live,inside⟩ := here
    exact ⟨strukt.content data :: confs,by simp [ParserStruct.read_inside inside live,rest]⟩

/-- The file cannot be mapped, or the parser comes to its end. -/
def Clean (files : FileSystem) (path : List UInt8) : Prop :=
  (∀ dir, getDirname path = some dir → opens files path = none) ∨
  ∃ dir s, getDirname path = some dir ∧ opens files path = some s ∧ Accepted files dir s 0

theorem loadNodlFile_clean (clean : Clean files path) (memory : Nat → KeyvalMemory) (filed : Filed d es) :
    ∃ fuel r, loadNodlFile files memory fuel path d = .done r := by
  rcases clean with unmapped | ⟨dir,s,dirname,opened,accepted⟩
  · obtain ⟨parser,loaded,_⟩ := load_unmapped unmapped 0
    exact ⟨0,(-1,d),by simp [loadNodlFile,loaded]⟩
  · obtain ⟨fuel,scanned⟩ := accepted_scan accepted
    obtain ⟨parser,loaded,left⟩ := load_kept dirname opened scanned
    obtain ⟨confs,read⟩ := structs_read left.strings
    obtain ⟨d',applied,_⟩ := applyNodlStructs_filed filed (confs.zipIdx.map fun x => (x.1,memory x.2))
    obtain ⟨_,released,_⟩ := left.fini
    exact ⟨fuel,(_,d'),by simp [loadNodlFile,loaded,read,applied,released]; rfl⟩

theorem clean_loadNodlFile (returned : loadNodlFile files memory fuel path d = .done r) : Clean files path := by
  by_cases unmapped : ∀ dir, getDirname path = some dir → opens files path = none
  · exact .inl unmapped
  push Not at unmapped
  obtain ⟨dir,dirname,some'⟩ := unmapped
  obtain ⟨s,opened⟩ := Option.ne_none_iff_exists'.mp some'
  rcases scan_returns files dir fuel s 0 with running | ⟨ok,done⟩
  · simp [loadNodlFile,load_running dirname opened running] at returned
  · cases ok with
    | false => simp [loadNodlFile,load_fault dirname opened done] at returned
    | true => exact .inr ⟨dir,s,dirname,opened,scan_accepted done⟩

/-- What a file tells in a new entry, unless it fails. -/
def descriptionOf (r : Int × Dict KeyvalInfo) : Option (Dict KeyvalInfo) := if r.1 = 0 then some r.2 else none

/-- What load_nodl_file makes of a file in a new entry, however long it takes. -/
def FileDescribes (files : FileSystem) (memory : Nat → KeyvalMemory) (path : List UInt8)
    (described : Option (Dict KeyvalInfo)) : Prop :=
  Comes (fun fuel => loadNodlFile files memory fuel path (banoDictInit true).2)
    (Returns fun r => described = descriptionOf r)

theorem fileDescribes_told (returned : loadNodlFile files memory fuel path (banoDictInit true).2 = .done r) :
    FileDescribes files memory path (descriptionOf r) :=
  .grown (fun more => loadNodlFile_below memory path _ more) returned rfl

theorem FileDescribes.told (describes : FileDescribes files memory path described)
    (returned : loadNodlFile files memory fuel path (banoDictInit true).2 = .done r) :
    described = descriptionOf r := by
  obtain ⟨_,⟨r',rfl,same⟩,least,stays⟩ := describes
  have later := (loadNodlFile_below memory path (banoDictInit true).2 (Nat.le_max_left fuel least)).done returned
  have agrees := (stays _ (Nat.le_max_right fuel least)).symm.trans later
  rw [same,Outcome.done.inj agrees]

end Bano
