import FeaturesOS.FileSystem.Terminators

/-!
# Directories of lines

What every step keeps about the live inodes, whether or not the texts of the
directories end inside their buffers: the path fits its array with the NUL, and
the text of a directory consists of lines, each of which was part of a path.  A
buffer that a failed load has freed has no text, and takes no entry in.
-/

namespace FeaturesOS.FileSystem

open CString

/-! ## A buffer of lines -/

/-- `realloc` refuses the room that `add_dentry_to_content` asks for. -/
def RefusesEntry (ambient : Ambient) (content : List UInt8) (size : Int32)
    (name : List UInt8) : Prop :=
  (strlen content + (name.length + 1 : Nat) : Int) > size.toInt ∧
    realloc ambient content (Int32.ofInt
      (size.toInt + (name.length + 1 : Nat) + initialContentLength)).toInt = none

instance (ambient : Ambient) (content : List UInt8) (size : Int32)
    (name : List UInt8) : Decidable (RefusesEntry ambient content size name) :=
  inferInstanceAs (Decidable (_ ∧ _))

/-- The entry is refused its room, or goes into a buffer that has been freed. -/
def DropsEntry (ambient : Ambient) (content : List UInt8) (size : Int32)
    (name : List UInt8) : Prop :=
  RefusesEntry ambient content size name ∨
    (strlen content + (name.length + 1 : Nat) : Int) ≤ size.toInt ∧
      (content.length : Int) < size.toInt

instance (ambient : Ambient) (content : List UInt8) (size : Int32)
    (name : List UInt8) : Decidable (DropsEntry ambient content size name) :=
  inferInstanceAs (Decidable (_ ∨ _))

/-- A buffer of lines, whose text may take all of the recorded size, or one that
has been freed. -/
structure LinedBuffer (content : List UInt8) (size : Int32) : Prop where
  nonnegative : 0 ≤ size.toInt
  inside : size.toInt ≤ content.length ∨ content = []
  within : (strlen content : Int) ≤ size.toInt
  lines : ∃ lines, (∀ line ∈ lines, IsLine line ∧ line.length < maxPath) ∧
    text content = encodeEntries lines

variable {ambient : Ambient} {content name : List UInt8} {size : Int32}

theorem length_lt_encodeEntries {lines : List (List UInt8)} {line : List UInt8}
    (member : line ∈ lines) : line.length < (encodeEntries lines).length := by
  induction lines with
  | nil => cases member
  | cons first lines induction =>
      rw [encodeEntries_cons, List.length_append, List.length_cons]
      rcases List.mem_cons.mp member with rfl | later
      · omega
      · have inRest := induction later
        omega

theorem text_of_nulFree (nulFree : 0 ∉ content) : text content = content := by
  unfold text
  rw [List.takeWhile_eq_self_iff]
  intro byte member
  have different : byte ≠ 0 := fun equal => nulFree (equal ▸ member)
  simpa using different

/-- Appending an entry to the text, when the block has room for the entry but
perhaps not for its NUL. -/
theorem text_strcpy_entry {block front : List UInt8} (isPrefix : front <+: block)
    (frontFree : 0 ∉ front) (nulFree : 0 ∉ name)
    (fits : front.length + (name.length + 1) ≤ block.length) :
    text (strcpy block front.length (name ++ [newline])) =
      front ++ (name ++ [newline]) := by
  have entryFree : 0 ∉ front ++ (name ++ [newline]) := by
    intro member
    rcases List.mem_append.mp member with inFront | inEntry
    · exact frontFree inFront
    · rcases List.mem_append.mp inEntry with inName | last
      · exact nulFree inName
      · exact absurd (List.mem_singleton.mp last) (by decide)
  have entryLength : (name ++ [newline]).length = name.length + 1 := by simp
  by_cases room : front.length + (name.length + 1) < block.length
  · have placed : front.length + (name ++ [newline] ++ [0]).length ≤
        block.length := by
      rw [List.length_append, entryLength, List.length_singleton]
      omega
    obtain ⟨rest, whole⟩ := prefix_overwrite isPrefix placed
    unfold strcpy
    rw [← whole, ← List.append_assoc, List.append_assoc, List.singleton_append]
    exact text_append_nul rest entryFree
  · have taken : block.take front.length = front :=
      (List.prefix_iff_eq_take.mp isPrefix).symm
    have whole : (front ++ (name ++ [newline])).length = block.length := by
      rw [List.length_append, entryLength]
      omega
    unfold strcpy overwrite
    rw [taken, ← List.append_assoc, List.append_assoc _ [0],
      List.take_left' whole]
    exact text_of_nulFree entryFree

/-- Adding the lines of a name. -/
theorem LinedBuffer.append {grown : List UInt8} {newSize : Int32}
    (buffer : LinedBuffer content size) (nulFree : 0 ∉ name)
    (short : name.length < maxPath) (nonnegative : 0 ≤ newSize.toInt)
    (inside : newSize.toInt ≤ grown.length)
    (within : (strlen grown : Int) ≤ newSize.toInt)
    (holds : text grown = text content ++ (name ++ [newline])) :
    LinedBuffer grown newSize := by
  obtain ⟨lines, areLines, isText⟩ := buffer.lines
  obtain ⟨added, areAdded, encoded⟩ := exists_lines nulFree
  refine ⟨nonnegative, .inl inside, within, lines ++ added, ?_, ?_⟩
  · intro line member
    rcases List.mem_append.mp member with old | new
    · exact areLines line old
    · have bounded := length_lt_encodeEntries new
      rw [← encoded, List.length_append, List.length_singleton] at bounded
      exact ⟨areAdded line new, by omega⟩
  · rw [holds, isText, encoded, encodeEntries_append]

/-- `add_dentry_to_content` drops the entry when `realloc` refuses the room for
it or the buffer has been freed, and appends it otherwise. -/
theorem LinedBuffer.add (buffer : LinedBuffer content size) (nulFree : 0 ∉ name)
    (short : name.length < maxPath) :
    (DropsEntry ambient content size name ∧
        addDentryToContent ambient content size name = (content, size)) ∨
      (¬ DropsEntry ambient content size name ∧
        LinedBuffer (addDentryToContent ambient content size name).1
          (addDentryToContent ambient content size name).2 ∧
        text (addDentryToContent ambient content size name).1 =
          text content ++ (name ++ [newline])) := by
  have entryLength : (name ++ [newline]).length = name.length + 1 := by simp
  have isMax : maxPath = 256 := rfl
  have isInitial : initialContentLength = 1024 := rfl
  have nonnegative := buffer.nonnegative
  have within := buffer.within
  have isPrefix : text content <+: content := List.takeWhile_prefix _
  have frontFree := text_nulFree content
  unfold addDentryToContent
  dsimp only
  rw [entryLength]
  by_cases full : (strlen content + (name.length + 1 : Nat) : Int) > size.toInt
  · rw [if_pos full]
    have newSize := toInt_grown nonnegative
      (show name.length + 1 < 2 ^ 16 by omega)
    cases granted : realloc ambient content (Int32.ofInt
        (size.toInt + (name.length + 1 : Nat) + initialContentLength)).toInt with
    | none => exact .inl ⟨.inl ⟨full, granted⟩, rfl⟩
    | some grown =>
        right
        refine ⟨fun drops => ?_, ?_⟩
        · rcases drops with refuses | ⟨fits, _⟩
          · cases granted.symm.trans refuses.2
          · omega
        · generalize Int32.ofInt _ = grownSize at newSize granted
          unfold realloc at granted
          split at granted
          · rename_i possible
            cases granted
            have exactSize := newSize.resolve_right (by omega)
            dsimp only
            generalize isBlock : resize content grownSize.toInt.toNat
              ambient.fresh = block
            have length : block.length = grownSize.toInt.toNat := by
              rw [← isBlock, length_resize]
            have keeps : text content <+: block := by
              rw [← isBlock]
              apply prefix_resize isPrefix
              change strlen content ≤ _
              omega
            have holds := text_strcpy_entry keeps frontFree nulFree (by
              change strlen content + _ ≤ _
              omega)
            refine ⟨buffer.append nulFree short (by omega) ?_ ?_ holds, holds⟩
            · rw [length_strcpy]
              omega
            · have bounded := strlen_le_length
                (strcpy block (text content).length (name ++ [newline]))
              rw [length_strcpy] at bounded
              change (strlen (strcpy block (text content).length _) : Int) ≤ _
              omega
          · cases granted
  · rw [if_neg full]
    by_cases freed : (content.length : Int) < size.toInt
    · obtain rfl := buffer.inside.resolve_left (by omega)
      exact .inl ⟨.inr ⟨by omega, freed⟩, by rw [strcpy_nil]⟩
    right
    refine ⟨fun drops => drops.elim (fun refuses => full refuses.1)
      fun lost => freed lost.2, ?_⟩
    have inside : size.toInt ≤ content.length := by omega
    have holds := text_strcpy_entry isPrefix frontFree nulFree (by
      change strlen content + _ ≤ _
      omega)
    refine ⟨buffer.append nulFree short nonnegative ?_ ?_ holds, holds⟩
    · rw [length_strcpy]
      exact inside
    · have length := congrArg List.length holds
      rw [List.length_append, entryLength] at length
      change (strlen (strcpy content (text content).length _) : Int) ≤
        size.toInt
      unfold strlen at full ⊢
      omega

theorem LinedBuffer.directoryEntries (buffer : LinedBuffer content size) :
    (∀ line ∈ directoryEntries content, IsLine line ∧ line.length < maxPath) ∧
      text content = encodeEntries (directoryEntries content) := by
  obtain ⟨lines, areLines, holds⟩ := buffer.lines
  have entries := directoryEntries_eq (fun line member =>
    (areLines line member).1) holds
  rw [entries]
  exact ⟨areLines, holds⟩

/-- The buffer that `calloc` returns for a directory. -/
theorem linedBuffer_zeros {length : Nat} (inside : size.toInt ≤ length)
    (nonnegative : 0 ≤ size.toInt) : LinedBuffer (zeros length) size := by
  refine ⟨nonnegative, .inl (by simpa using inside), ?_, [], by simp,
    text_zeros _⟩
  have empty : strlen (zeros length) = 0 := by
    rw [strlen, text_zeros]
    rfl
  rw [empty]
  exact nonnegative

theorem linedBuffer_freed (nonnegative : 0 ≤ size.toInt) :
    LinedBuffer [] size :=
  ⟨nonnegative, .inr rfl, nonnegative, [], by simp, rfl⟩

/-- The rebuilding loop of `remove_inode`. -/
theorem LinedBuffer.rebuild (removed : List UInt8) {names : List (List UInt8)}
    (areLines : ∀ name ∈ names, IsLine name ∧ name.length < maxPath)
    (buffer : LinedBuffer content size) :
    let rebuilt := names.foldl (keepEntry ambient removed) (content, size)
    LinedBuffer rebuilt.1 rebuilt.2 := by
  induction names generalizing content size with
  | nil => exact buffer
  | cons name names induction =>
      have isLine := areLines name List.mem_cons_self
      rw [List.foldl_cons]
      have kept : LinedBuffer
          (keepEntry ambient removed (content, size) name).1
          (keepEntry ambient removed (content, size) name).2 := by
        unfold keepEntry
        split
        · exact buffer
        · rcases buffer.add isLine.1.nulFree isLine.2 with ⟨_, same⟩ |
            ⟨_, lined, _⟩
          · rw [same]
            exact buffer
          · exact lined
      exact induction (fun other member =>
        areLines other (List.mem_cons_of_mem _ member)) kept

/-! ## The live inodes -/

/-- The path of an inode fits its array with the NUL, and a directory has a
buffer of lines. -/
structure Inode.Lined (inode : Inode) : Prop where
  short : inode.path.text.length < maxPath
  buffer : inode.type = .dir → LinedBuffer inode.content inode.size

namespace Superblock

def Lined (superblock : Superblock) : Prop :=
  ∀ index, superblock.inodeBitmap index = true →
    (superblock.inodes index).Lined

variable {superblock : Superblock} {path : List UInt8}

namespace Lined

theorem setInode (lined : superblock.Lined) {index : Nat} {inode : Inode}
    (isLined : superblock.inodeBitmap index = true → inode.Lined) :
    (superblock.setInode index inode).Lined := by
  intro other live
  by_cases same : other = index
  · subst same
    rw [setInode_inodes_self]
    exact isLined live
  · rw [setInode_inodes_of_ne _ _ same]
    exact lined other live

theorem clearBitmap (lined : superblock.Lined) (index : Nat) :
    (superblock.setBitmap index false).Lined := by
  intro other live
  by_cases same : other = index
  · subst same
    simp [Superblock.setBitmap] at live
  · simp only [Superblock.setBitmap, Function.update_of_ne same] at live
    exact lined other live

theorem sameNamespace {next : Superblock} (lined : superblock.Lined)
    (same : superblock.SameNamespace next) : next.Lined := by
  intro index live
  rw [same.bitmap] at live
  obtain ⟨short, buffer⟩ := lined index live
  constructor
  · change (next.pathAt index).length < maxPath
    rw [same.paths]
    exact short
  · intro isDirectory
    rw [same.types] at isDirectory
    obtain ⟨content, size⟩ := same.directories index isDirectory
    rw [content, size]
    exact buffer isDirectory

/-- `create_inode` checks the length of the path. -/
theorem createInode (lined : superblock.Lined) (ambient : Ambient)
    (nulFree : 0 ∉ path) (mode : UInt32) (type : InodeType) :
    (superblock.createInode ambient path mode type).1.Lined := by
  unfold Superblock.createInode
  split
  · exact lined
  · rename_i short
    split
    · exact lined
    · rename_i freeIndex found
      have free := (searchFreeInode_eq_some found).2
      dsimp only
      split
      · apply lined.setInode
        intro live
        rw [free] at live
        cases live
      · rename_i content allocated
        intro index live
        by_cases same : index = freeIndex
        · subst same
          have stored := (superblock.inodes index).path.text_strcpy nulFree
            (Nat.lt_of_not_le short)
          simp only [Superblock.setBitmap, Superblock.setInode,
            Function.update_self]
          have empty : LinedBuffer (zeros initialContentLength) 0 :=
            linedBuffer_zeros (by decide) (by decide)
          constructor
          · rw [stored]
            exact Nat.lt_of_not_le short
          · rw [eq_zeros_of_calloc allocated]
            exact fun _ => empty
        · simp only [Superblock.setBitmap, Superblock.setInode,
            Function.update_of_ne same] at live ⊢
          exact lined index live

theorem addDentryToParentDir (lined : superblock.Lined) (ambient : Ambient)
    (nulFree : 0 ∉ path) (short : path.length < maxPath) :
    (superblock.addDentryToParentDir ambient path).1.Lined := by
  unfold Superblock.addDentryToParentDir
  cases found : superblock.getParent path with
  | none => exact lined
  | some parent =>
      dsimp only
      split
      · exact lined
      · rename_i isDirectory
        apply lined.setInode
        intro live
        refine ⟨(lined parent live).short, fun _ => ?_⟩
        have buffer := (lined parent live).buffer (not_not.mp isDirectory)
        have baseShort := Nat.lt_of_le_of_lt (baseName_length_le path) short
        rcases @LinedBuffer.add ambient _ _ _ buffer (nulFree_baseName nulFree)
          baseShort with ⟨_, same⟩ | ⟨_, extended, _⟩
        · rw [same]
          exact buffer
        · exact extended

theorem createEntry (lined : superblock.Lined) (ambient : Ambient)
    (nulFree : 0 ∉ path) (mode : UInt32) (type : InodeType) :
    (superblock.createEntry ambient path mode type).1.Lined := by
  have created := lined.createInode ambient nulFree mode type
  unfold Superblock.createEntry
  dsimp only
  rcases createInode_cases superblock ambient path mode type with
    ⟨negative, -⟩ | ⟨freeIndex, found, can, same⟩
  · rw [if_pos negative]
    exact created
  · have extended := created.addDentryToParentDir ambient nulFree can.1
    split
    · exact created
    · split
      · exact extended
      · exact extended

theorem removeInode (lined : superblock.Lined) (ambient : Ambient)
    (path : List UInt8) (index : Nat) :
    (superblock.removeInode ambient path index).Lined := by
  have cleared := lined.clearBitmap index
  unfold Superblock.removeInode
  dsimp only
  split
  · exact cleared
  · rename_i parent found
    split
    · exact cleared
    · split
      · exact cleared
      · rename_i buffer allocated
        apply cleared.setInode
        intro live
        refine ⟨(cleared parent live).short, fun isDirectory => ?_⟩
        have old := (cleared parent live).buffer isDirectory
        have nonnegative := old.nonnegative
        have fresh : LinedBuffer buffer (superblock.inodes parent).size := by
          rw [eq_zeros_of_calloc allocated]
          exact linedBuffer_zeros (Int.self_le_toNat _) nonnegative
        exact fresh.rebuild (baseName path) old.directoryEntries.1

theorem call (lined : superblock.Lined) (ambient : Ambient) (call : Call) :
    (superblock.call ambient call).1.Lined := by
  cases call with
  | getattr path => exact lined
  | readdir path => exact lined
  | read path size offset =>
      exact lined.sameNamespace (fisopfsRead_same _ _ _ _ _)
  | unlink path =>
      unfold Superblock.call fisopfsUnlink
      dsimp only
      split
      · exact lined
      · split
        · exact lined
        · exact lined.removeInode ambient _ _
  | mkdir path mode => exact lined.createEntry ambient path.nulFree _ _
  | create path mode => exact lined.createEntry ambient path.nulFree _ _
  | utimens path accessed modified =>
      exact lined.sameNamespace (fisopfsUtimens_same _ _ _ _)
  | rmdir path =>
      unfold Superblock.call fisopfsRmdir
      dsimp only
      split
      · exact lined
      · split
        · exact lined
        · split
          · exact lined
          · exact lined.removeInode ambient _ _
  | write path buffer offset =>
      exact lined.sameNamespace (fisopfsWrite_same _ _ _ _ _)
  | truncate path size =>
      exact lined.sameNamespace (fisopfsTruncate_same _ _ _ _)

theorem fresh (ambient : Ambient) : (Superblock.fresh ambient).Lined := by
  have empty : Superblock.empty.Lined := by
    intro index live
    cases live
  exact empty.createInode ambient (by decide) _ _

end Lined

end Superblock

/-! ## Images -/

theorem LinedBuffer.take (buffer : LinedBuffer content size)
    (inside : size.toInt ≤ content.length) :
    LinedBuffer (content.take size.toInt.toNat) size := by
  have nonnegative := buffer.nonnegative
  have within := buffer.within
  have length : (content.take size.toInt.toNat).length = size.toInt.toNat := by
    rw [List.length_take]
    omega
  have same : text (content.take size.toInt.toNat) = text content := by
    unfold text
    rw [← List.take_takeWhile]
    apply List.take_of_length_le
    change strlen content ≤ _
    omega
  obtain ⟨lines, areLines, isText⟩ := buffer.lines
  refine ⟨nonnegative, .inl (by omega), ?_, lines, areLines, same.trans isText⟩
  unfold strlen
  rw [same]
  exact within

/-- A buffer that has been freed is stored as if it were empty. -/
theorem Inode.Lined.reloaded {inode : Inode} (lined : inode.Lined) :
    inode.reloaded.Lined := by
  refine ⟨lined.short, fun isDirectory => ?_⟩
  have buffer := lined.buffer isDirectory
  by_cases inside : inode.size.toInt ≤ inode.content.length
  · have backed : inode.Backed := ⟨buffer.nonnegative, inside⟩
    have content : inode.reloaded.content =
        inode.content.take inode.size.toInt.toNat :=
      backed.reloaded_content
    rw [content]
    exact buffer.take inside
  · have content : inode.reloaded.content = zeros inode.size.toInt.toNat := by
      unfold Inode.reloaded
      rw [if_neg fun backed : inode.Backed => inside backed.2]
      exact overwrite_nil _ 0
    rw [content]
    exact linedBuffer_zeros (Int.self_le_toNat _) buffer.nonnegative

theorem Inode.Lined.freed {inode : Inode} (lined : inode.Lined) :
    ({ inode with content := [] } : Inode).Lined :=
  ⟨lined.short, fun isDirectory =>
    linedBuffer_freed (lined.buffer isDirectory).nonnegative⟩

/-- The inodes that a disk file stores are lined. -/
def StoresLined (file : List UInt8) : Prop :=
  ∀ count, ∀ inode ∈ storedInodes count (file.drop 4), inode.Lined

theorem storesLined_nil : StoresLined [] := by
  intro count inode stored
  rw [List.drop_nil, storedInodes_nil] at stored
  cases stored

namespace Superblock

variable {superblock : Superblock}

theorem Lined.serialize (lined : superblock.Lined) (pointers : Nat → UInt64) :
    StoresLined (superblock.serialize pointers) := by
  intro count inode stored
  obtain ⟨slot, live, rfl⟩ := stored_serialize pointers stored
  exact (lined slot live).reloaded

theorem lined_held {file : List UInt8} (stores : StoresLined file) :
    (Superblock.empty.deserialize ambient file).held.Lined := by
  intro slot live
  rw [held_inodeBitmap] at live
  have stored := (List.takeWhile_sublist _).mem (loadLoop_loads live)
  have lined := stores _ _ stored
  rw [held_inodes]
  split
  · exact lined.freed
  · exact lined

end Superblock

/-! ## Mounts -/

/-- What is mounted and what is stored is lined. -/
structure Host.Lined (host : Host) : Prop where
  mounted : ∀ superblock, host.mounted = some superblock → superblock.Lined
  disk : ∀ file, host.disk = some file → StoresLined file

theorem Host.Lined.step {host next : Host} {event : HostEvent}
    (lined : host.Lined) (step : heldMounts.Step host event next) :
    next.Lined := by
  cases step with
  | init ambient =>
      rename_i disk
      cases disk with
      | none =>
          constructor
          · rintro _ ⟨⟩
            exact .fresh ambient
          · rintro _ ⟨⟩
            exact storesLined_nil
      | some file =>
          have stores := lined.disk file rfl
          constructor
          · rintro _ ⟨⟩
            exact Superblock.lined_held stores
          · rintro _ ⟨⟩
            exact stores
  | later notInit step =>
      cases step with
      | init ambient => exact absurd rfl (notInit ambient)
      | call ambient call =>
          constructor
          · rintro _ ⟨⟩
            exact (lined.mounted _ rfl).call ambient call
          · exact lined.disk
      | destroy pointers =>
          constructor
          · rintro _ ⟨⟩
          · rintro _ ⟨⟩
            exact (lined.mounted _ rfl).serialize pointers
      | kill =>
          constructor
          · rintro _ ⟨⟩
          · exact lined.disk

/-- Every history of mounts keeps the paths short and the directories in
lines. -/
theorem lined_of_reachable {host : Host}
    (reachable : heldMounts.Reachable Machine.Unrestricted host)
    {superblock : Superblock} (mounted : host.mounted = some superblock) :
    superblock.Lined := by
  have lined : host.Lined := by
    apply reachable.invariant
    · rintro _ rfl
      constructor
      · rintro _ ⟨⟩
      · rintro _ ⟨⟩
    · intro host event next lined _ step
      exact lined.step step
  exact lined.mounted superblock mounted

/-- The host after its first mount. -/
theorem reachable_fresh : heldMounts.Reachable Machine.Unrestricted
    ⟨some [], some (.fresh .generous)⟩ := by
  have initial : heldMounts.Reachable Machine.Unrestricted ⟨none, none⟩ :=
    .initial rfl
  exact initial.step trivial (HeldStep.init .generous)

end FeaturesOS.FileSystem
