import FeaturesOS.Scheduler.CopyOnWrite
import FeaturesOS.Scheduler.PageContents

/-!
# Copying a page

`memmove` of a page between two pages that the program may read and write copies
all the bytes of the one physical page to the other, and nothing else changes.
-/

namespace FeaturesOS.Scheduler

/-! ## The addresses of a page -/

section Offsets

variable {base : UInt32} {o : Nat}

theorem aligned_toNat (aligned : base % 4096 = 0) : base.toNat % 4096 = 0 := by
  have zero := congrArg UInt32.toNat aligned
  rw [UInt32.toNat_mod] at zero
  exact zero

theorem toNat_offset (aligned : base % 4096 = 0) (inside : o < 4096) :
    (base + UInt32.ofNat o).toNat = base.toNat + o := by
  have page := aligned_toNat aligned
  have bound := base.toNat_lt
  rw [UInt32.toNat_add, UInt32.toNat_ofNat']
  omega

theorem pdx_offset (aligned : base % 4096 = 0) (inside : o < 4096) :
    pdx (base + UInt32.ofNat o) = pdx base := by
  have page := aligned_toNat aligned
  unfold pdx
  rw [toNat_offset aligned inside]
  omega

theorem ptx_offset (aligned : base % 4096 = 0) (inside : o < 4096) :
    ptx (base + UInt32.ofNat o) = ptx base := by
  have page := aligned_toNat aligned
  unfold ptx
  rw [toNat_offset aligned inside]
  omega

theorem offset_lt_utop (user : base < utop) (aligned : base % 4096 = 0)
    (inside : o < 4096) : base + UInt32.ofNat o < utop := by
  have page := aligned_toNat aligned
  have below := UInt32.lt_iff_toNat_lt.mp user
  rw [UInt32.lt_iff_toNat_lt, toNat_offset aligned inside]
  rw [utop_toNat] at below ⊢
  omega

theorem offset_mod (aligned : base % 4096 = 0) (inside : o < 4096) :
    (base + UInt32.ofNat o).toNat % 4096 = o := by
  have page := aligned_toNat aligned
  rw [toNat_offset aligned inside]
  omega

theorem offset_succ (base : UInt32) (o : Nat) :
    base + UInt32.ofNat o + 1 = base + UInt32.ofNat (o + 1) := by
  rw [UInt32.add_assoc, UInt32.ofNat_add]
  rfl

end Offsets

namespace PhysMem

variable {mem next : PhysMem} {pool free : List Nat} {dirs : Nat → Option Nat}
variable {e : Fin nenv} {d f g o : Nat} {base src dst va : UInt32}
variable {writes : Bool} {bytes : List UInt8}

theorem translate_base (aligned : base % 4096 = 0) (writes : Bool) :
    mem.translate d writes base =
      (mem.translate d writes base).map fun place => (place.1, 0) := by
  cases found : mem.translate d writes base with
  | none => rfl
  | some place =>
      have offset := translate_offset found
      rw [aligned_toNat aligned] at offset
      rw [Option.map_some, ← offset]

theorem translate_page (aligned : base % 4096 = 0) (inside : o < 4096)
    (writes : Bool) :
    mem.translate d writes (base + UInt32.ofNat o) =
      (mem.translate d writes base).map fun place => (place.1, o) := by
  unfold translate
  dsimp only
  rw [pdx_offset aligned inside, ptx_offset aligned inside,
    offset_mod aligned inside]
  split
  · rfl
  · rfl

theorem translate_at (aligned : base % 4096 = 0) (inside : o < 4096)
    (found : mem.translate d writes base = some (f, 0)) :
    mem.translate d writes (base + UInt32.ofNat o) = some (f, o) := by
  rw [translate_page aligned inside, found]
  rfl

/-- Words are made of their bytes. -/
theorem wordOf_getByte (word : UInt32) :
    wordOf [getByte word 0, getByte word 1, getByte word 2, getByte word 3] =
      word := by
  have zero : word >>> UInt32.ofNat (8 * 0) = word := UInt32.shiftRight_zero
  have parts : wordBytes [word] =
      [getByte word 0, getByte word 1, getByte word 2, getByte word 3] := by
    unfold wordBytes getByte
    rw [zero]
    rfl
  rw [← parts]
  exact wordOf_wordBytes word

theorem word_of_bytes {first second : UInt32}
    (same : ∀ p < 4, getByte first p = getByte second p) : first = second := by
  rw [← wordOf_getByte first, ← wordOf_getByte second, same 0 (by decide),
    same 1 (by decide), same 2 (by decide), same 3 (by decide)]

theorem ram_of_bytes {page page' i : Nat}
    (same : ∀ p < 4, next.byteAt (page, 4 * i + p) =
      mem.byteAt (page', 4 * i + p)) : next.ram page i = mem.ram page' i := by
  apply word_of_bytes
  intro p below
  have there := same p below
  unfold byteAt at there
  dsimp only at there
  rw [show (4 * i + p) / 4 = i by omega, show (4 * i + p) % 4 = p by omega]
    at there
  exact there

theorem loadBytes_page (aligned : base % 4096 = 0) {count : Nat}
    (inside : o + count ≤ 4096)
    (found : mem.translate d false base = some (f, 0)) :
    mem.loadBytes d count (base + UInt32.ofNat o) =
      some ((List.range' o count).map fun k => mem.byteAt (f, k)) := by
  induction count generalizing o with
  | zero => rfl
  | succ count induction =>
      have rest := induction (show o + 1 + count ≤ 4096 by omega)
      unfold loadBytes
      have first : mem.loadByte d (base + UInt32.ofNat o) =
          some (mem.byteAt (f, o)) := by
        unfold loadByte
        rw [translate_at aligned (by omega) found]
        rfl
      rw [first, offset_succ, rest]
      rfl

/-! ## Stores into one page -/

/-- The bytes of the page `g` from `o` on are `bytes`, and all other bytes are the
same. -/
structure Overwrites (mem next : PhysMem) (pool free : List Nat)
    (dirs : Nat → Option Nat) (g o : Nat) (bytes : List UInt8) : Prop where
  written : Written mem next pool free dirs
  books : next = { mem with ram := next.ram }
  bytes : ∀ place, next.byteAt place =
    if place.1 = g ∧ o ≤ place.2 ∧ place.2 < o + bytes.length then
      bytes.getD (place.2 - o) 0
    else mem.byteAt place

theorem Accounted.overwrite (accounted : mem.Accounted pool free dirs)
    (separate : mem.Separate dirs) (isDir : dirs e = some d)
    (user : base < utop) (aligned : base % 4096 = 0)
    (inside : o + bytes.length ≤ 4096)
    (found : mem.translate d true base = some (g, 0)) :
    ∃ next, PhysMem.storeBytes d mem (base + UInt32.ofNat o) bytes = some next ∧
      Overwrites mem next pool free dirs g o bytes := by
  induction bytes generalizing mem o with
  | nil =>
      refine ⟨mem, rfl, .refl accounted, rfl, fun place => ?_⟩
      rw [if_neg]
      rintro ⟨_, low, high⟩
      rw [List.length_nil] at high
      omega
  | cons byte bytes induction =>
      rw [List.length_cons] at inside
      have here := translate_at aligned (show o < 4096 by omega) found
      have stores := storeByte_eq byte here
      have written := accounted.storeByte separate isDir
        (offset_lt_utop user aligned (by omega)) stores
      have found' : (mem.setByteAt (g, o) byte).translate d true base =
          some (g, 0) := by
        rw [translate_congr written.word isDir user]
        exact found
      obtain ⟨next, rest, overwrites⟩ := induction written.accounted
        (written.separate separate) (show o + 1 + bytes.length ≤ 4096 by omega)
        found'
      refine ⟨next, ?_, written.trans overwrites.written, ?_, ?_⟩
      · unfold PhysMem.storeBytes
        rw [stores]
        dsimp only [Option.bind_eq_bind, Option.bind_some]
        rw [offset_succ]
        exact rest
      · rw [overwrites.books]
        rfl
      · intro place
        rw [overwrites.bytes, byteAt_setByteAt, List.length_cons]
        by_cases first : place = (g, o)
        · subst first
          rw [if_neg (by omega), if_pos rfl, if_pos ⟨rfl, by omega, by omega⟩,
            Nat.sub_self]
          rfl
        · rw [if_neg first]
          by_cases later : place.1 = g ∧ o + 1 ≤ place.2 ∧
              place.2 < o + 1 + bytes.length
          · rw [if_pos later, if_pos ⟨later.1, by omega, by omega⟩,
              show place.2 - o = place.2 - (o + 1) + 1 by omega]
            rfl
          · rw [if_neg later, if_neg]
            rintro ⟨isPage, low, high⟩
            have notFirst : place.2 ≠ o := fun same =>
              first (Prod.ext isPage same)
            exact later ⟨isPage, by omega, by omega⟩

/-! ## The copy of a page -/

/-- The words of the page `g` from `start` on come from the page `f`. -/
structure Copies (mem next : PhysMem) (pool free : List Nat)
    (dirs : Nat → Option Nat) (f g start count : Nat) : Prop where
  written : Written mem next pool free dirs
  books : next = { mem with ram := next.ram }
  bytes : ∀ place, next.byteAt place =
    if place.1 = g ∧ 4 * start ≤ place.2 ∧ place.2 < 4 * (start + count) then
      mem.byteAt (f, place.2)
    else mem.byteAt place

theorem writable_page (aligned : base % 4096 = 0) {count : Nat}
    (inside : o + count ≤ 4096)
    (found : mem.translate d true base = some (g, 0)) :
    mem.Writable d (base + UInt32.ofNat o) count := by
  intro k below
  rw [UInt32.add_assoc, ← UInt32.ofNat_add,
    translate_at aligned (by omega) found]
  rfl

theorem Accounted.copy (accounted : mem.Accounted pool free dirs)
    (separate : mem.Separate dirs) (isDir : dirs e = some d)
    (srcUser : UserPage src) (dstUser : UserPage dst)
    (reads : mem.translate d false src = some (f, 0))
    (writable : mem.translate d true dst = some (g, 0)) (different : f ≠ g)
    {start count : Nat} (inside : start + count ≤ 1024) :
    ∃ next, PhysMem.moveUnits d 4 dst src
        ((List.range' start count).map (· * 4)) mem = (true, next) ∧
      Copies mem next pool free dirs f g start count := by
  induction count generalizing mem start with
  | zero =>
      refine ⟨mem, rfl, .refl accounted, rfl, fun place => ?_⟩
      rw [if_neg]
      rintro ⟨_, low, high⟩
      omega
  | succ count induction =>
      have loads := loadBytes_page srcUser.2
        (show start * 4 + 4 ≤ 4096 by omega) reads
      have allowed := writable_page dstUser.2
        (show start * 4 + 4 ≤ 4096 by omega) writable
      generalize isBytes : (List.range' (start * 4) 4).map
        (fun k => mem.byteAt (f, k)) = unit at loads
      have four : unit.length = 4 := by
        rw [← isBytes, List.length_map, List.length_range']
      obtain ⟨moved, stores, overwrites⟩ := accounted.overwrite separate isDir
        dstUser.1 dstUser.2 (show start * 4 + unit.length ≤ 4096 by omega)
        writable
      have reads' : moved.translate d false src = some (f, 0) := by
        rw [translate_congr overwrites.written.word isDir srcUser.1]
        exact reads
      have writable' : moved.translate d true dst = some (g, 0) := by
        rw [translate_congr overwrites.written.word isDir dstUser.1]
        exact writable
      obtain ⟨next, rest, copies⟩ := induction overwrites.written.accounted
        (overwrites.written.separate separate) reads' writable'
        (show start + 1 + count ≤ 1024 by omega)
      have moves : mem.moveUnit d 4 (dst + UInt32.ofNat (start * 4))
          (src + UInt32.ofNat (start * 4)) = some moved := by
        unfold PhysMem.moveUnit
        rw [loads]
        dsimp only [Option.bind_eq_bind, Option.bind_some]
        rw [if_pos allowed]
        exact stores
      refine ⟨next, ?_, overwrites.written.trans copies.written, ?_, ?_⟩
      · rw [List.range'_succ, List.map_cons]
        unfold PhysMem.moveUnits
        rw [moves]
        exact rest
      · rw [copies.books, overwrites.books]
      · intro place
        have untouched : moved.byteAt (f, place.2) = mem.byteAt (f, place.2) := by
          rw [overwrites.bytes, if_neg fun isPage => different isPage.1]
        rw [copies.bytes, untouched, overwrites.bytes, four]
        by_cases isPage : place.1 = g
        · by_cases later : 4 * (start + 1) ≤ place.2 ∧
              place.2 < 4 * (start + 1 + count)
          · rw [if_pos ⟨isPage, later⟩, if_pos ⟨isPage, by omega, by omega⟩]
          · rw [if_neg fun both => later both.2]
            by_cases here : start * 4 ≤ place.2 ∧ place.2 < start * 4 + 4
            · rw [if_pos ⟨isPage, here⟩, if_pos ⟨isPage, by omega, by omega⟩,
                ← isBytes, List.getD_eq_getElem _ _ (by simp; omega)]
              simp only [List.getElem_map, List.getElem_range']
              rw [show start * 4 + 1 * (place.2 - start * 4) = place.2 by omega]
            · rw [if_neg fun both => here both.2, if_neg]
              rintro ⟨_, low, high⟩
              omega
        · rw [if_neg fun both => isPage both.1, if_neg fun both => isPage both.1,
            if_neg fun both => isPage both.1]

theorem Copies.ram_other {start count page : Nat}
    (copies : Copies mem next pool free dirs f g start count)
    (other : page ≠ g) : next.ram page = mem.ram page := by
  funext i
  apply ram_of_bytes
  intro p _
  rw [copies.bytes, if_neg fun both => other both.1]

theorem Copies.ram {i : Nat}
    (copies : Copies mem next pool free dirs f g 0 1024) (inside : i < 1024) :
    next.ram g i = mem.ram f i := by
  apply ram_of_bytes
  intro p _
  rw [copies.bytes, if_pos ⟨rfl, by omega, by omega⟩]

theorem Overwrites.ram_other {page : Nat}
    (overwrites : Overwrites mem next pool free dirs g o bytes)
    (other : page ≠ g) : next.ram page = mem.ram page := by
  funext i
  apply ram_of_bytes
  intro p _
  rw [overwrites.bytes, if_neg fun both => other both.1]

theorem Accounted.moveUnit_overwrites (accounted : mem.Accounted pool free dirs)
    (separate : mem.Separate dirs) (isDir : dirs e = some d)
    (user : UserPage dst) (inside : o + 4 ≤ 4096)
    (moves : mem.moveUnit d 4 (dst + UInt32.ofNat o) va = some next) :
    ∃ g bytes, mem.translate d true dst = some (g, 0) ∧
      Overwrites mem next pool free dirs g o bytes := by
  obtain ⟨bytes, loads, stores⟩ := Option.bind_eq_some_iff.mp moves
  have four := loadBytes_length loads
  split at stores
  · rename_i allowed
    have first := allowed 0 (by decide)
    rw [show dst + UInt32.ofNat o + UInt32.ofNat 0 = dst + UInt32.ofNat o from
      UInt32.add_zero _, translate_page user.2 (by omega),
      Option.isSome_map] at first
    obtain ⟨place, found⟩ := Option.isSome_iff_exists.mp first
    have isBase := mem.translate_base (d := d) user.2 true
    rw [found, Option.map_some] at isBase
    rw [isBase] at found
    obtain ⟨next', stores', overwrites⟩ := accounted.overwrite separate isDir
      user.1 user.2 (show o + bytes.length ≤ 4096 by omega) found
    cases stores.symm.trans stores'
    exact ⟨place.1, bytes, found, overwrites⟩
  · cases stores

/-- However far a move to a page of the user gets, it changes no other page. -/
theorem Accounted.moveUnits_others {offsets : List Nat}
    (accounted : mem.Accounted pool free dirs) (separate : mem.Separate dirs)
    (isDir : dirs e = some d) (user : UserPage dst)
    (inside : ∀ offset ∈ offsets, offset + 4 ≤ 4096) :
    PhysMem.moveUnits d 4 dst src offsets mem =
        ((PhysMem.moveUnits d 4 dst src offsets mem).1,
          { mem with ram := (PhysMem.moveUnits d 4 dst src offsets mem).2.ram }) ∧
      ∀ page, mem.translate d true dst ≠ some (page, 0) →
        (PhysMem.moveUnits d 4 dst src offsets mem).2.ram page =
          mem.ram page := by
  induction offsets generalizing mem with
  | nil => exact ⟨rfl, fun _ _ => rfl⟩
  | cons offset offsets induction =>
      unfold PhysMem.moveUnits
      split
      · exact ⟨rfl, fun _ _ => rfl⟩
      · rename_i moved moves
        obtain ⟨g, bytes, found, overwrites⟩ := accounted.moveUnit_overwrites
          separate isDir user (inside offset List.mem_cons_self) moves
        have same : moved.translate d true dst = mem.translate d true dst :=
          translate_congr overwrites.written.word isDir user.1 true
        obtain ⟨books, others⟩ := induction overwrites.written.accounted
          (overwrites.written.separate separate)
          fun other member => inside other (List.mem_cons_of_mem _ member)
        refine ⟨?_, fun page other => ?_⟩
        · rw [books, overwrites.books]
        · rw [others page (same ▸ other), overwrites.ram_other]
          rintro rfl
          exact other found

theorem pageOffsets_inside : ∀ offset ∈ pageOffsets, offset + 4 ≤ 4096 := by
  intro offset member
  obtain ⟨i, below, same⟩ := List.mem_map.mp member
  have small := List.mem_range.mp below
  omega

/-! ## `memmove` of a page -/

theorem Accounted.memmove_copies (accounted : mem.Accounted pool free dirs)
    (separate : mem.Separate dirs) (isDir : dirs e = some d)
    (srcUser : UserPage src) (dstUser : UserPage dst)
    (reads : mem.translate d false src = some (f, 0))
    (writable : mem.translate d true dst = some (g, 0)) (different : f ≠ g) :
    ∃ next, mem.memmove d dst src 4096 = (true, next) ∧
      Copies mem next pool free dirs f g 0 1024 := by
  rw [memmove_page srcUser.2 dstUser.2]
  unfold pageOffsets
  rw [List.range_eq_range']
  exact accounted.copy separate isDir srcUser dstUser reads writable different
    (by decide)

/-- A page that has been copied could be read, and its copy could be written. -/
theorem Accounted.memmove_done (accounted : mem.Accounted pool free dirs)
    (separate : mem.Separate dirs) (isDir : dirs e = some d)
    (srcAligned : src % 4096 = 0) (dstUser : UserPage dst)
    (done : (mem.memmove d dst src 4096).1 = true) :
    ∃ f g, mem.translate d false src = some (f, 0) ∧
      mem.translate d true dst = some (g, 0) := by
  obtain ⟨offsets, isFirst⟩ := pageOffsets_first
  rw [memmove_page srcAligned dstUser.2, isFirst] at done
  have readable := moveUnits_loads done
  rw [show src + UInt32.ofNat 0 = src from UInt32.add_zero src] at readable
  obtain ⟨place, found⟩ := Option.isSome_iff_exists.mp readable
  have isBase := mem.translate_base (d := d) srcAligned false
  rw [found, Option.map_some] at isBase
  unfold PhysMem.moveUnits at done
  split at done
  · cases done
  · rename_i moved moves
    obtain ⟨g, _, writable, _⟩ := accounted.moveUnit_overwrites separate isDir
      dstUser (by decide) moves
    exact ⟨place.1, g, found.trans isBase, writable⟩

/-- The page `g` with the words of the page `f`. -/
def copyPage (mem : PhysMem) (f g : Nat) : PhysMem :=
  { mem with
    ram := Function.update mem.ram g fun i =>
      if i < 1024 then mem.ram f i else mem.ram g i }

theorem Copies.eq_copyPage (copies : Copies mem next pool free dirs f g 0 1024) :
    next = mem.copyPage f g := by
  have same : next.ram = (mem.copyPage f g).ram := by
    funext page i
    unfold copyPage
    dsimp only
    by_cases isPage : page = g
    · subst isPage
      rw [Function.update_self]
      by_cases inside : i < 1024
      · rw [if_pos inside]
        exact copies.ram inside
      · rw [if_neg inside]
        apply ram_of_bytes
        intro p _
        rw [copies.bytes, if_neg]
        rintro ⟨_, _, below⟩
        dsimp only at below
        omega
    · rw [Function.update_of_ne isPage, copies.ram_other isPage]
  rw [copies.books, same]
  rfl

end PhysMem

end FeaturesOS.Scheduler
