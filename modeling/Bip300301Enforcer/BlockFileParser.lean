import Bip300301Enforcer.Lib.Reader
import Bip300301Enforcer.SyncHeaders

/-! The parser of Bitcoin Core's block files. A file holds records of four magic bytes, the
size of a block and the block, all of it XORed with a key by the position in the file, and
then zeros that are not XORed. -/
namespace Bip300301Enforcer
open Lib Bytes Reader

abbrev XorKey := Vector UInt8 8

abbrev Magic := Vector UInt8 4

def mainnetMagic : Magic := #v[0xF9,0xBE,0xB4,0xD9]

def testnetMagic : Magic := #v[0x0B,0x11,0x09,0x07]

def signetMagic : Magic := #v[0x0A,0x03,0xCF,0x40]

def regtestMagic : Magic := #v[0xFA,0xBF,0xB5,0xDA]

def maxBlockSerializedSize : ℕ := 4000000

def magicForNetwork : Network → Magic
  | .mainnet => mainnetMagic
  | .testnet => testnetMagic
  | .testnet4 => testnetMagic
  | .signet => signetMagic
  | .regtest => regtestMagic

/-- The errors of the parser. The last one stands for the panic of a subtraction. -/
inductive ParseBlockFileError
  | io
  | invalidMagic (found expected : List UInt8) (offset : ℕ)
  | invalidNetwork (found expected : Network)
  | blockSizeTooLarge (size : ℕ)
  | blockSizeTooSmall (size : ℕ)
  | headerDecode
  | uintDecode
  | subtractOverflow
deriving DecidableEq

structure ParsedBlock where
  header : Header
  rawTxData : List UInt8
  offset : ℕ
deriving DecidableEq

/-- The buffered file below the parser. A read hands out at least one byte unless the file
is at its end, and how many more is up to `splits`. -/
structure BufReader where
  file : List UInt8
  splits : ℕ → ℕ
  reads : ℕ
  position : ℕ

def BufReader.read (r : BufReader) (len : ℕ) : List UInt8 × BufReader :=
  let bytes := ((r.file.drop r.position).take len).take (max 1 (r.splits r.reads))
  (bytes,{ r with reads := r.reads+1, position := r.position+bytes.length })

structure XorReader where
  reader : BufReader
  xorKey : Option XorKey
  offset : ℕ

def xorByte : Option XorKey → ℕ → UInt8 → UInt8
  | none, _, b => b
  | some key, pos, b => b ^^^ key.get ⟨pos%8,Nat.mod_lt _ (by decide)⟩

theorem xorByte_xorByte (key : Option XorKey) (pos : ℕ) (b : UInt8) :
    xorByte key pos (xorByte key pos b) = b := by
  cases key with
  | none => rfl
  | some key =>
    show b ^^^ _ ^^^ _ = b
    rw [UInt8.xor_assoc,UInt8.xor_self,UInt8.xor_zero]

/-- Bytes XORed by their position, the first of them at the position given. -/
def xorFrom (key : Option XorKey) (pos : ℕ) (bytes : List UInt8) : List UInt8 :=
  mapFrom (xorByte key) pos bytes

namespace XorReader

def read (r : XorReader) (len : ℕ) : List UInt8 × XorReader :=
  let (bytes,reader) := r.reader.read len
  (xorFrom r.xorKey r.offset bytes,{ r with reader, offset := r.offset+bytes.length })

def seek (r : XorReader) (pos : ℕ) : XorReader :=
  { r with reader := { r.reader with position := pos }, offset := pos }

structure On (file : List UInt8) (key : Option XorKey) (r : XorReader) : Prop where
  file_eq : r.reader.file = file
  key_eq : r.xorKey = key
  offset_eq : r.offset = r.reader.position

/-- However the reads are split, they hand out the file with the key taken off. -/
theorem delivers (file : List UInt8) (key : Option XorKey) :
    Delivers read (xorFrom key 0 file) offset (On file key) where
  piece := by
    rintro r len ⟨rfl,rfl,hoffset⟩
    have hdrop : ((xorFrom r.xorKey 0 r.reader.file).drop r.offset).take (len+1) =
        xorFrom r.xorKey r.offset ((r.reader.file.drop r.reader.position).take (len+1)) := by
      rw [xorFrom,mapFrom_drop,mapFrom_take,Nat.zero_add,← hoffset]
      rfl
    rw [hdrop]
    simp only [read,BufReader.read,xorFrom]
    rw [← mapFrom_take]
    exact List.take_prefix ..
  advance := by
    rintro r len -
    simp [read,xorFrom]
  inv := by
    rintro r len ⟨hfile,hkey,hoffset⟩
    refine ⟨hfile,hkey,?_⟩
    simp [read,BufReader.read,hoffset]
  nil := by
    rintro r len ⟨rfl,rfl,hoffset⟩ hnil
    have hlen := congrArg List.length hnil
    simp only [read,BufReader.read,xorFrom,length_mapFrom,List.length_take,List.length_drop,
      List.length_nil] at hlen ⊢
    omega

end XorReader

structure BlockFileParser where
  reader : XorReader
  network : Network
  magicOverride : Option Magic

namespace BlockFileParser

def new (xorKey : Option XorKey) (file : List UInt8) (splits : ℕ → ℕ) (network : Network)
    (magicOverride : Option Magic) : BlockFileParser where
  reader := { reader := { file, splits, reads := 0, position := 0 }, xorKey, offset := 0 }
  network := network
  magicOverride := magicOverride

def expectedMagic (p : BlockFileParser) : Magic :=
  p.magicOverride.getD (magicForNetwork p.network)

def setOffset (p : BlockFileParser) (offset : ℕ) : BlockFileParser :=
  { p with reader := p.reader.seek offset }

def readExact (p : BlockFileParser) (len : ℕ) : Option (List UInt8) × BlockFileParser :=
  let (bytes,reader) := Reader.readExact XorReader.read p.reader len
  (bytes,{ p with reader })

/-- Whether the magic bytes just read are zeros in the file. -/
def isEndOfFile (p : BlockFileParser) (magic : List UInt8) : Except ParseBlockFileError Bool :=
  match p.reader.xorKey with
  | some key =>
    if p.reader.offset < 4 then .error .subtractOverflow
    else .ok ((xorFrom (some key) (p.reader.offset-4) magic).all (· == 0))
  | none => .ok (magic.all (· == 0))

def knownNetworks : List Network := [.mainnet,.regtest,.testnet,.signet]

def wrongMagic (p : BlockFileParser) (magic : List UInt8) (offset : ℕ) : ParseBlockFileError :=
  match p.magicOverride, knownNetworks.find? (fun net => (magicForNetwork net).toList == magic) with
  | none, some network => .invalidNetwork network p.network
  | _, _ => .invalidMagic magic p.expectedMagic.toList offset

/-- The part of a record after its magic bytes. -/
def readBlock (p : BlockFileParser) (offset : ℕ) :
    Except ParseBlockFileError (Option ParsedBlock) × BlockFileParser :=
  match p.readExact 4 with
  | (none,p) => (.error .uintDecode,p)
  | (some sizeBytes,p) =>
    let size := leNat sizeBytes
    if maxBlockSerializedSize < size then (.error (.blockSizeTooLarge size),p)
    else
      match p.readExact 80 with
      | (none,p) => (.error .headerDecode,p)
      | (some headerBytes,p) =>
        match Header.deserialize headerBytes with
        | none => (.error .headerDecode,p)
        | some header =>
          if size < 80 then (.error (.blockSizeTooSmall size),p)
          else
            match p.readExact (size-80) with
            | (none,p) => (.error .io,p)
            | (some rawTxData,p) => (.ok (some { header, rawTxData, offset }),p)

def nextBlock (p : BlockFileParser) :
    Except ParseBlockFileError (Option ParsedBlock) × BlockFileParser :=
  let offset := p.reader.offset
  match p.readExact 4 with
  | (none,p) => (.ok none,p)
  | (some magic,p) =>
    match p.isEndOfFile magic with
    | .error err => (.error err,p)
    | .ok true => (.ok none,p)
    | .ok false =>
      if magic ≠ p.expectedMagic.toList then (.error (p.wrongMagic magic offset),p)
      else p.readBlock offset

structure ParseAllBlocksError where
  index : ℕ
  source : ParseBlockFileError
deriving DecidableEq

/-- The loop of `allBlocks`, `none` when it does not end within the fuel. -/
def allBlocksLoop : ℕ → BlockFileParser → List ParsedBlock →
    Option (Except ParseAllBlocksError (List ParsedBlock)) × BlockFileParser
  | 0, p, _ => (none,p)
  | fuel+1, p, blocks =>
    match p.nextBlock with
    | (.error source,p) => (some (.error { index := blocks.length, source }),p)
    | (.ok none,p) => (some (.ok blocks),p)
    | (.ok (some block),p) => allBlocksLoop fuel p (blocks++[block])

/-- Every round but the last one reads at least four bytes. -/
def allBlocks (p : BlockFileParser) :
    Option (Except ParseAllBlocksError (List ParsedBlock)) × BlockFileParser :=
  allBlocksLoop (p.reader.reader.file.length/4+1) p []

/-- The `next` of the iterator over the blocks of a file. -/
def next (p : BlockFileParser) :
    Option (Except ParseBlockFileError ParsedBlock) × BlockFileParser :=
  match p.nextBlock with
  | (.ok (some block),p) => (some (.ok block),p)
  | (.ok none,p) => (none,p)
  | (.error err,p) => (some (.error err),p)

/-- The items of the iterator, `none` when it does not end within the fuel. -/
def iter : ℕ → BlockFileParser → Option (List (Except ParseBlockFileError ParsedBlock))
  | 0, _ => none
  | fuel+1, p =>
    match p.next with
    | (none,_) => some []
    | (some item,p) => (iter fuel p).map (item::·)

inductive Call
  | nextBlock
  | setOffset (offset : ℕ)

def call (p : BlockFileParser) : Call → BlockFileParser
  | .nextBlock => p.nextBlock.2
  | .setOffset offset => p.setOffset offset

section Reading
variable {file : List UInt8} {key : Option XorKey} {magic : Magic} {p : BlockFileParser}

structure On (file : List UInt8) (key : Option XorKey) (magic : Magic) (p : BlockFileParser) :
    Prop where
  reader : p.reader.On file key
  magic_eq : p.expectedMagic = magic

theorem On.setOffset (hp : p.On file key magic) (offset : ℕ) :
    (p.setOffset offset).On file key magic where
  reader := ⟨hp.reader.file_eq,hp.reader.key_eq,rfl⟩
  magic_eq := hp.magic_eq

theorem On.readExact_some (hp : p.On file key magic) {bytes rest : List UInt8}
    (hdrop : (xorFrom key 0 file).drop p.reader.offset = bytes++rest) :
    ∃ p', p.readExact bytes.length = (some bytes,p') ∧ p'.On file key magic ∧
      p'.reader.offset = p.reader.offset+bytes.length ∧
      (xorFrom key 0 file).drop p'.reader.offset = rest := by
  by_cases hnil : bytes = []
  · subst hnil
    exact ⟨p,rfl,hp,rfl,hdrop⟩
  · have hlen := congrArg List.length hdrop
    have hpos := List.length_pos_iff.mpr hnil
    rw [List.length_drop,List.length_append] at hlen
    obtain ⟨r,hread,hoffset,hr⟩ := (XorReader.delivers file key).readExact_ok hp.reader
      (show p.reader.offset+bytes.length ≤ _ by omega)
    refine ⟨{ p with reader := r },?_,⟨hr,hp.magic_eq⟩,hoffset,?_⟩
    · simp [readExact,hread,hdrop]
    · show (xorFrom key 0 file).drop r.offset = rest
      rw [hoffset,← List.drop_drop,hdrop,List.drop_left]

theorem On.readExact (hp : p.On file key magic) {len : ℕ} (hlen : 0 < len) :
    (p.readExact len).2.On file key magic ∧ p.reader.offset ≤ (p.readExact len).2.reader.offset ∧
      ∀ bytes, (p.readExact len).1 = some bytes →
        (p.readExact len).2.reader.offset = p.reader.offset+len ∧
          p.reader.offset+len ≤ file.length ∧
          bytes = ((xorFrom key 0 file).drop p.reader.offset).take len := by
  have hcontent : (xorFrom key 0 file).length = file.length := length_mapFrom ..
  by_cases hend : p.reader.offset+len ≤ file.length
  · obtain ⟨r,hread,hoffset,hr⟩ := (XorReader.delivers file key).readExact_ok hp.reader
      (hcontent ▸ hend)
    simp only [BlockFileParser.readExact,hread]
    refine ⟨⟨hr,hp.magic_eq⟩,by omega,?_⟩
    rintro bytes ⟨rfl⟩
    exact ⟨hoffset,hend,rfl⟩
  · obtain ⟨r,hread,-,hle,hr⟩ := (XorReader.delivers file key).readExact_eof hp.reader
      (show _ < p.reader.offset+len by omega) hlen
    simp only [BlockFileParser.readExact,hread]
    refine ⟨⟨hr,hp.magic_eq⟩,hle,?_⟩
    rintro bytes ⟨⟩

theorem On.readExact_le (hp : p.On file key magic) (len : ℕ) :
    (p.readExact len).2.On file key magic ∧
      p.reader.offset ≤ (p.readExact len).2.reader.offset := by
  cases len with
  | zero => exact ⟨hp,le_rfl⟩
  | succ len =>
    obtain ⟨hon,hle,-⟩ := hp.readExact (Nat.succ_pos len)
    exact ⟨hon,hle⟩

/-- What follows the magic bytes is a block or an error. -/
theorem On.readBlock (hp : p.On file key magic) (offset : ℕ) :
    (p.readBlock offset).2.On file key magic ∧
      p.reader.offset ≤ (p.readBlock offset).2.reader.offset ∧
      (p.readBlock offset).1 ≠ .error .subtractOverflow := by
  obtain ⟨hon₁,hle₁⟩ := hp.readExact_le 4
  unfold BlockFileParser.readBlock
  generalize p.readExact 4 = read₁ at hon₁ hle₁ ⊢
  obtain ⟨_ | sizeBytes,p₁⟩ := read₁
  · exact ⟨hon₁,hle₁,by simp⟩
  dsimp only at hon₁ hle₁ ⊢
  split
  · exact ⟨hon₁,hle₁,by simp⟩
  obtain ⟨hon₂,hle₂⟩ := hon₁.readExact_le 80
  generalize p₁.readExact 80 = read₂ at hon₂ hle₂ ⊢
  obtain ⟨_ | headerBytes,p₂⟩ := read₂
  · exact ⟨hon₂,hle₁.trans hle₂,by simp⟩
  dsimp only at hon₂ hle₂ ⊢
  rcases Header.deserialize headerBytes with _ | header
  · exact ⟨hon₂,hle₁.trans hle₂,by simp⟩
  dsimp only
  split
  · exact ⟨hon₂,hle₁.trans hle₂,by simp⟩
  obtain ⟨hon₃,hle₃⟩ := hon₂.readExact_le (leNat sizeBytes-80)
  generalize p₂.readExact (leNat sizeBytes-80) = read₃ at hon₃ hle₃ ⊢
  obtain ⟨_ | rawTxData,p₃⟩ := read₃
  · exact ⟨hon₃,(hle₁.trans hle₂).trans hle₃,by simp⟩
  · exact ⟨hon₃,(hle₁.trans hle₂).trans hle₃,by simp⟩

theorem On.isEndOfFile (hp : p.On file key magic) {pos : ℕ} {bytes : List UInt8}
    (hpos : p.reader.offset = pos+4) (hlen : pos+4 ≤ file.length)
    (hbytes : bytes = ((xorFrom key 0 file).drop pos).take 4) :
    p.isEndOfFile bytes = .ok (decide ((file.drop pos).take 4 = List.replicate 4 0)) := by
  have hraw : xorFrom key pos bytes = (file.drop pos).take 4 := by
    rw [hbytes,xorFrom,xorFrom,mapFrom_drop,mapFrom_take,Nat.zero_add,
      mapFrom_mapFrom (xorByte_xorByte key)]
  have hzero : ((file.drop pos).take 4).all (· == 0) =
      decide ((file.drop pos).take 4 = List.replicate 4 0) := by
    rw [Bool.eq_iff_iff,decide_eq_true_iff,List.eq_replicate_iff,List.all_eq_true]
    simp only [beq_iff_eq,List.length_take,List.length_drop]
    exact ⟨fun h => ⟨by omega,h⟩,And.right⟩
  unfold BlockFileParser.isEndOfFile
  rw [hp.reader.key_eq]
  cases key with
  | none =>
    have hsame : bytes = (file.drop pos).take 4 := by
      rw [← hraw]
      exact (List.mapIdx_eq_iff.mpr fun i => Option.map_id'.symm).symm
    rw [hsame,hzero]
  | some key =>
    dsimp only
    rw [if_neg (by omega),hpos,Nat.add_sub_cancel,hraw,hzero]

theorem On.nextBlock (hp : p.On file key magic) :
    p.nextBlock.2.On file key magic ∧ p.nextBlock.1 ≠ .error .subtractOverflow ∧
      (p.nextBlock.1 ≠ .ok none →
        p.reader.offset+4 ≤ p.nextBlock.2.reader.offset ∧ p.reader.offset+4 ≤ file.length) := by
  obtain ⟨hon,-,hsome⟩ := hp.readExact (show 0 < 4 by decide)
  unfold BlockFileParser.nextBlock
  generalize p.readExact 4 = read at hon hsome ⊢
  obtain ⟨_ | bytes,p₁⟩ := read
  · exact ⟨hon,by simp,fun h => absurd rfl h⟩
  · obtain ⟨hoffset,hlen,hbytes⟩ := hsome bytes rfl
    dsimp only at hon hoffset ⊢
    rw [hon.isEndOfFile hoffset hlen hbytes]
    cases decide ((file.drop p.reader.offset).take 4 = List.replicate 4 0) with
    | true => exact ⟨hon,by simp,fun h => absurd rfl h⟩
    | false =>
      dsimp only
      split
      · refine ⟨hon,?_,fun _ => ⟨hoffset.ge,hlen⟩⟩
        unfold wrongMagic
        split <;> simp
      · obtain ⟨hon',hle,hpanic⟩ := hon.readBlock p.reader.offset
        exact ⟨hon',hpanic,fun _ => ⟨hoffset ▸ hle,hlen⟩⟩

theorem On.call (hp : p.On file key magic) (c : Call) : (p.call c).On file key magic := by
  cases c with
  | nextBlock => exact hp.nextBlock.1
  | setOffset offset => exact hp.setOffset offset

theorem On.run (hp : p.On file key magic) (calls : List Call) :
    (calls.foldl BlockFileParser.call p).On file key magic := by
  induction calls generalizing p with
  | nil => exact hp
  | cons c calls ih => exact ih (hp.call c)

theorem On.iter (hp : p.On file key magic) {fuel : ℕ}
    (hfuel : (file.length-p.reader.offset)/4 < fuel) : ∃ items, iter fuel p = some items := by
  induction fuel generalizing p with
  | zero => omega
  | succ fuel ih =>
    obtain ⟨hon,-,hmore⟩ := hp.nextBlock
    unfold BlockFileParser.iter BlockFileParser.next
    generalize p.nextBlock = out at hon hmore ⊢
    obtain ⟨(err | _ | block),p₁⟩ := out
    · obtain ⟨hoffset,hlen⟩ := hmore (by simp)
      obtain ⟨items,hitems⟩ := ih hon (by dsimp only at hoffset ⊢; omega)
      exact ⟨_,congrArg (Option.map _) hitems⟩
    · exact ⟨[],rfl⟩
    · obtain ⟨hoffset,hlen⟩ := hmore (by simp)
      obtain ⟨items,hitems⟩ := ih hon (by dsimp only at hoffset ⊢; omega)
      exact ⟨_,congrArg (Option.map _) hitems⟩

theorem On.allBlocksLoop (hp : p.On file key magic) {fuel : ℕ} (blocks : List ParsedBlock)
    (hfuel : (file.length-p.reader.offset)/4 < fuel) :
    ∃ out, (allBlocksLoop fuel p blocks).1 = some out := by
  induction fuel generalizing p blocks with
  | zero => omega
  | succ fuel ih =>
    obtain ⟨hon,-,hmore⟩ := hp.nextBlock
    unfold BlockFileParser.allBlocksLoop
    generalize p.nextBlock = out at hon hmore ⊢
    obtain ⟨(err | _ | block),p₁⟩ := out
    · exact ⟨_,rfl⟩
    · exact ⟨_,rfl⟩
    · obtain ⟨hoffset,hlen⟩ := hmore (by simp)
      exact ih hon (blocks++[block]) (by dsimp only at hoffset ⊢; omega)

end Reading

/-- A block as the node stores it, with its transactions serialised. -/
structure StoredBlock where
  header : Header
  txData : List UInt8
deriving DecidableEq

def StoredBlock.size (b : StoredBlock) : ℕ := 80+b.txData.length

def record (magic : Magic) (b : StoredBlock) : List UInt8 :=
  magic.toList++leBytes 4 b.size++b.header.serialize++b.txData

def records (magic : Magic) (blocks : List StoredBlock) : List UInt8 :=
  blocks.flatMap (record magic)

def blockFile (key : Option XorKey) (magic : Magic) (blocks : List StoredBlock) (padding : ℕ) :
    List UInt8 :=
  xorFrom key 0 (records magic blocks)++List.replicate padding 0

/-- The blocks with the offsets of their records, the first of them at the offset given. -/
def storedAt (magic : Magic) : ℕ → List StoredBlock → List ParsedBlock
  | _, [] => []
  | offset, b::blocks =>
    ⟨b.header,b.txData,offset⟩::storedAt magic (offset+(record magic b).length) blocks

section Written
variable {file : List UInt8} {key : Option XorKey} {magic : Magic} {p : BlockFileParser}
  {blocks : List StoredBlock} {padding : ℕ}

theorem length_record (magic : Magic) (b : StoredBlock) :
    (record magic b).length = 88+b.txData.length := by
  simp [record]
  omega

theorem length_le_records (magic : Magic) (blocks : List StoredBlock) :
    4*blocks.length ≤ (records magic blocks).length := by
  induction blocks with
  | nil => exact Nat.zero_le _
  | cons b blocks ih =>
    have hlen := length_record magic b
    simp only [records,List.flatMap_cons,List.length_append,List.length_cons] at ih ⊢
    omega

theorem xorFrom_blockFile (key : Option XorKey) (magic : Magic) (blocks : List StoredBlock)
    (padding : ℕ) : ∃ rest, xorFrom key 0 (blockFile key magic blocks padding) =
      records magic blocks++rest := by
  unfold blockFile xorFrom
  rw [mapFrom_append,mapFrom_mapFrom (xorByte_xorByte key)]
  exact ⟨_,rfl⟩

theorem drop_blockFile (key : Option XorKey) (magic : Magic) (blocks : List StoredBlock)
    (padding : ℕ) : (blockFile key magic blocks padding).drop (records magic blocks).length =
      List.replicate padding 0 := by
  have hlen : (xorFrom key 0 (records magic blocks)).length = (records magic blocks).length :=
    length_mapFrom ..
  rw [← hlen]
  exact List.drop_left ..

/-- The bytes of a block after its magic bytes are read back. -/
theorem On.readBlock_record (hp : p.On file key magic) {b : StoredBlock} {rest : List UInt8}
    (offset : ℕ) (hsize : b.size ≤ maxBlockSerializedSize)
    (hdrop : (xorFrom key 0 file).drop p.reader.offset =
      leBytes 4 b.size++(b.header.serialize++(b.txData++rest))) :
    ∃ p', p.readBlock offset = (.ok (some ⟨b.header,b.txData,offset⟩),p') ∧
      p'.On file key magic ∧ (xorFrom key 0 file).drop p'.reader.offset = rest ∧
      p'.reader.offset = p.reader.offset+84+b.txData.length := by
  obtain ⟨p₁,hread₁,hon₁,hoffset₁,hdrop₁⟩ := hp.readExact_some hdrop
  obtain ⟨p₂,hread₂,hon₂,hoffset₂,hdrop₂⟩ := hon₁.readExact_some hdrop₁
  obtain ⟨p₃,hread₃,hon₃,hoffset₃,hdrop₃⟩ := hon₂.readExact_some hdrop₂
  have hlt : b.size < 256^4 := lt_of_le_of_lt hsize (by decide)
  rw [length_leBytes] at hread₁ hoffset₁
  rw [Header.length_serialize] at hread₂ hoffset₂
  refine ⟨p₃,?_,hon₃,hdrop₃,by omega⟩
  unfold BlockFileParser.readBlock
  rw [hread₁]
  dsimp only
  rw [leNat_leBytes_of_lt hlt,if_neg (by omega),hread₂]
  dsimp only
  rw [Header.deserialize_serialize]
  dsimp only
  rw [if_neg (by unfold StoredBlock.size; omega)]
  have hrest : b.size-80 = b.txData.length := by unfold StoredBlock.size; omega
  rw [hrest,hread₃]

/-- The record at the current position is read back. -/
theorem On.nextBlock_record (hp : p.On file key magic) {b : StoredBlock} {rest : List UInt8}
    (hsize : b.size ≤ maxBlockSerializedSize)
    (hdrop : (xorFrom key 0 file).drop p.reader.offset = record magic b++rest)
    (hraw : (file.drop p.reader.offset).take 4 ≠ List.replicate 4 0) :
    ∃ p', p.nextBlock = (.ok (some ⟨b.header,b.txData,p.reader.offset⟩),p') ∧
      p'.On file key magic ∧ (xorFrom key 0 file).drop p'.reader.offset = rest ∧
      p'.reader.offset = p.reader.offset+(record magic b).length := by
  have hdrop' : (xorFrom key 0 file).drop p.reader.offset =
      magic.toList++(leBytes 4 b.size++(b.header.serialize++(b.txData++rest))) := by
    rw [hdrop]
    simp only [record,List.append_assoc]
  have hmagic : magic.toList.length = 4 := by simp
  obtain ⟨p₁,hread₁,hon₁,hoffset₁,hdrop₁⟩ := hp.readExact_some hdrop'
  rw [hmagic] at hread₁ hoffset₁
  obtain ⟨p₂,hread₂,hon₂,hdrop₂,hoffset₂⟩ := hon₁.readBlock_record p.reader.offset hsize hdrop₁
  refine ⟨p₂,?_,hon₂,hdrop₂,by rw [length_record]; omega⟩
  have hlen := congrArg List.length hdrop'
  simp only [xorFrom,List.length_drop,length_mapFrom,List.length_append,hmagic] at hlen
  have hfirst : magic.toList = ((xorFrom key 0 file).drop p.reader.offset).take 4 := by
    rw [hdrop']
    exact (List.take_left' hmagic).symm
  have hend := hon₁.isEndOfFile hoffset₁ (by omega) hfirst
  unfold BlockFileParser.nextBlock
  rw [hread₁]
  dsimp only
  rw [hend,decide_eq_false hraw]
  dsimp only
  rw [if_neg (by simp [hon₁.magic_eq]),hread₂]

theorem On.nextBlock_padding (hp : p.On file key magic)
    (hdrop : file.drop p.reader.offset = List.replicate padding 0) :
    p.nextBlock.1 = .ok none := by
  obtain ⟨hon,-,hsome⟩ := hp.readExact (show 0 < 4 by decide)
  unfold BlockFileParser.nextBlock
  generalize p.readExact 4 = read at hon hsome ⊢
  obtain ⟨_ | bytes,p₁⟩ := read
  · rfl
  · obtain ⟨hoffset,hlen,hbytes⟩ := hsome bytes rfl
    have hpadding := congrArg List.length hdrop
    rw [List.length_drop,List.length_replicate] at hpadding
    have hzero : (file.drop p.reader.offset).take 4 = List.replicate 4 0 := by
      rw [hdrop,List.take_replicate]
      congr 1
      omega
    dsimp only at hon hoffset ⊢
    rw [hon.isEndOfFile hoffset hlen hbytes,decide_eq_true hzero]

/-- From a record on, the loop reads the blocks that are left. -/
theorem On.allBlocksLoop_records (hp : p.On file key magic) {fuel : ℕ} {rest : List UInt8}
    (acc : List ParsedBlock) (hfuel : blocks.length < fuel)
    (hsize : ∀ b ∈ blocks, b.size ≤ maxBlockSerializedSize)
    (hdrop : (xorFrom key 0 file).drop p.reader.offset = records magic blocks++rest)
    (hend : file.drop (p.reader.offset+(records magic blocks).length) = List.replicate padding 0)
    (hraw : ∀ parsed ∈ storedAt magic p.reader.offset blocks,
      (file.drop parsed.offset).take 4 ≠ List.replicate 4 0) :
    (BlockFileParser.allBlocksLoop fuel p acc).1 = some (.ok (acc++storedAt magic p.reader.offset blocks)) := by
  induction blocks generalizing fuel p acc with
  | nil =>
    obtain ⟨fuel,rfl⟩ : ∃ m, fuel = m+1 := ⟨fuel-1,by simp at hfuel; omega⟩
    have hnext := hp.nextBlock_padding hend
    unfold BlockFileParser.allBlocksLoop
    generalize p.nextBlock = out at hnext ⊢
    obtain ⟨out,p₁⟩ := out
    obtain rfl : out = .ok none := hnext
    simp [storedAt]
  | cons b blocks ih =>
    obtain ⟨fuel,rfl⟩ : ∃ m, fuel = m+1 := ⟨fuel-1,by omega⟩
    have hcons : records magic (b::blocks) = record magic b++records magic blocks :=
      List.flatMap_cons ..
    rw [hcons,List.append_assoc] at hdrop
    obtain ⟨p₁,hnext,hon₁,hdrop₁,hoffset₁⟩ := hp.nextBlock_record (hsize b List.mem_cons_self)
      hdrop (hraw _ List.mem_cons_self)
    rw [hcons,List.length_append,← Nat.add_assoc,← hoffset₁] at hend
    have hloop := ih hon₁ (acc++[⟨b.header,b.txData,p.reader.offset⟩])
      (show blocks.length < fuel by simp at hfuel; omega)
      (fun b hb => hsize b (List.mem_cons_of_mem _ hb)) hdrop₁ hend
      (fun parsed hparsed => hraw parsed (List.mem_cons_of_mem _ (hoffset₁ ▸ hparsed)))
    unfold BlockFileParser.allBlocksLoop
    rw [hnext]
    dsimp only
    rw [hloop,hoffset₁,List.append_assoc]
    rfl

theorem exists_record_of_mem {parsed : ParsedBlock} {offset : ℕ}
    (hmem : parsed ∈ storedAt magic offset blocks) :
    ∃ before b after, blocks = before++b::after ∧
      parsed = ⟨b.header,b.txData,offset+(records magic before).length⟩ := by
  induction blocks generalizing offset with
  | nil => simp [storedAt] at hmem
  | cons b blocks ih =>
    rcases List.mem_cons.mp hmem with rfl | hmem
    · exact ⟨[],b,blocks,rfl,rfl⟩
    · obtain ⟨before,b',after,rfl,rfl⟩ := ih hmem
      refine ⟨b::before,b',after,rfl,?_⟩
      simp [records,Nat.add_assoc]

theorem On.nextBlock_setOffset (hp : p.On (blockFile key magic blocks padding) key magic)
    (hsize : ∀ b ∈ blocks, b.size ≤ maxBlockSerializedSize) {parsed : ParsedBlock}
    (hmem : parsed ∈ storedAt magic 0 blocks)
    (hraw : ((blockFile key magic blocks padding).drop parsed.offset).take 4 ≠
      List.replicate 4 0) :
    (p.setOffset parsed.offset).nextBlock.1 = .ok (some parsed) := by
  obtain ⟨before,b,after,rfl,rfl⟩ := exists_record_of_mem hmem
  obtain ⟨rest,hcontent⟩ := xorFrom_blockFile key magic (before++b::after) padding
  have hsplit : records magic (before++b::after) =
      records magic before++(record magic b++records magic after) := by
    simp [records]
  have hdrop : (xorFrom key 0 (blockFile key magic (before++b::after) padding)).drop
      (0+(records magic before).length) = record magic b++(records magic after++rest) := by
    rw [hcontent,hsplit,Nat.zero_add,List.append_assoc,List.drop_left,List.append_assoc]
  obtain ⟨p',hnext,-⟩ := (hp.setOffset _).nextBlock_record (hsize b (by simp)) hdrop hraw
  rw [hnext]
  rfl

theorem new_on (key : Option XorKey) (file : List UInt8) (splits : ℕ → ℕ) (network : Network)
    (magicOverride : Option Magic) :
    (new key file splits network magicOverride).On file key
      (magicOverride.getD (magicForNetwork network)) :=
  ⟨⟨rfl,rfl,rfl⟩,rfl⟩

end Written

/-- A file of the node is read back as its blocks with their offsets, however the reads are
split, and from each of these offsets again. On any bytes every call returns, and the
iteration ends. -/
theorem blockFile_read_back (key : Option XorKey) (splits : ℕ → ℕ) (network : Network)
    (magicOverride : Option Magic) :
    (∀ blocks padding magic file,
      magic = magicOverride.getD (magicForNetwork network) →
      file = blockFile key magic blocks padding →
      (∀ b ∈ blocks, b.size ≤ maxBlockSerializedSize) →
      (∀ parsed ∈ storedAt magic 0 blocks,
        (file.drop parsed.offset).take 4 ≠ List.replicate 4 0) →
      (new key file splits network magicOverride).allBlocks.1 =
          some (.ok (storedAt magic 0 blocks)) ∧
        ∀ (calls : List Call), ∀ parsed ∈ storedAt magic 0 blocks,
          ((calls.foldl call (new key file splits network magicOverride)).setOffset
            parsed.offset).nextBlock.1 = .ok (some parsed)) ∧
    ∀ (file : List UInt8) (calls : List Call),
      let p := calls.foldl call (new key file splits network magicOverride)
      p.nextBlock.1 ≠ .error .subtractOverflow ∧
      (∃ items, iter (file.length/4+1) p = some items) ∧
      ∃ out, p.allBlocks.1 = some out := by
  constructor
  · rintro blocks padding magic file hmagic rfl hsize hraw
    have hnew : (new key (blockFile key magic blocks padding) splits network magicOverride).On
        (blockFile key magic blocks padding) key magic := hmagic ▸ new_on ..
    constructor
    · obtain ⟨rest,hcontent⟩ := xorFrom_blockFile key magic blocks padding
      have hlen := length_le_records magic blocks
      have hend : (blockFile key magic blocks padding).drop (0+(records magic blocks).length) =
          List.replicate padding 0 := by
        rw [Nat.zero_add]
        exact drop_blockFile ..
      refine hnew.allBlocksLoop_records [] ?_ hsize hcontent hend hraw
      simp only [new,blockFile,xorFrom,List.length_append,length_mapFrom]
      omega
    · intro calls parsed hparsed
      exact (hnew.run calls).nextBlock_setOffset hsize hparsed (hraw parsed hparsed)
  · intro file calls p
    have hp := (new_on key file splits network magicOverride).run calls
    refine ⟨hp.nextBlock.2.1,hp.iter (by omega),?_⟩
    unfold allBlocks
    exact hp.allBlocksLoop [] (by rw [hp.reader.file_eq]; omega)

def sampleBlocks : List StoredBlock :=
  [⟨⟨1,0,7,1000,0x207fffff,3⟩,[1,2,3]⟩,⟨⟨2,5,9,2000,0x207fffff,4⟩,[]⟩]

def sampleKey : XorKey := #v[0xf1,0x64,0xb4,0xf3,0xa7,0x9d,0x73,0x04]

theorem blockFile_read_back_sample :
    (new sampleKey (blockFile sampleKey regtestMagic sampleBlocks 5) (· % 3+1) .regtest
      none).allBlocks.1 = some (.ok (storedAt regtestMagic 0 sampleBlocks)) ∧
    ((new sampleKey (blockFile sampleKey regtestMagic sampleBlocks 5) (· % 3+1) .regtest
      none).setOffset 91).nextBlock.1 = .ok (some ⟨⟨2,5,9,2000,0x207fffff,4⟩,[],91⟩) := by
  obtain ⟨hall,hseek⟩ := (blockFile_read_back sampleKey (· % 3+1) .regtest none).1 sampleBlocks 5
    regtestMagic _ rfl rfl (by decide +kernel) (by decide +kernel)
  exact ⟨hall,hseek [] ⟨_,_,91⟩ (by decide +kernel)⟩

end BlockFileParser

end Bip300301Enforcer
