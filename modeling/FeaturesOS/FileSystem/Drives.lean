import FeaturesOS.Simulation
import FeaturesOS.FileSystem.Answering
import FeaturesOS.FileSystem.Mounts
import FeaturesOS.FileSystem.Terminators

/-!
# Volumes on a drive

A drive keeps the volume that was saved last.  The histories of mounts over one
disk file are those of a drive, call by call and reply by reply, as long as the
calls keep clear of the defects of their handlers and what is saved can be loaded.
-/

namespace FeaturesOS.FileSystem

open CString

/-- The volume that was saved last, and the one in use. -/
structure Drive where
  saved : Option Volume
  mounted : Option Volume

/-- What happens to a drive, and what comes back. -/
inductive DriveStep : Drive → HostEvent × Reply → Drive → Prop where
  | format {ambient : Ambient} {volume : Volume} :
      volume.find =
        Function.update (fun _ => none) [] (some (.new ambient .directory)) →
      DriveStep ⟨none, none⟩ (.init ambient, .plain 0) ⟨none, some volume⟩
  | mount {ambient : Ambient} {volume : Volume} :
      DriveStep ⟨some volume, none⟩ (.init ambient, .plain 0)
        ⟨some volume, some volume⟩
  | call {saved : Option Volume} {volume next : Volume} {ambient : Ambient}
      {call : Call} {reply : Reply} :
      Answers ambient volume call reply next →
      DriveStep ⟨saved, some volume⟩ (.call ambient call, reply)
        ⟨saved, some next⟩
  | save {saved : Option Volume} {volume : Volume} {pointers : Nat → UInt64} :
      DriveStep ⟨saved, some volume⟩ (.destroy pointers, .plain 0)
        ⟨some volume, none⟩
  | kill {saved : Option Volume} {volume : Volume} :
      DriveStep ⟨saved, some volume⟩ (.kill, .plain 0) ⟨saved, none⟩

/-- A drive on which nothing has been saved. -/
def drives : Machine Drive (HostEvent × Reply) where
  Initial drive := drive = ⟨none, none⟩
  Step := DriveStep

/-- What comes back from a step of the host. -/
def Host.reply (host : Host) : HostEvent → Reply
  | .call ambient call =>
      match host.mounted with
      | some superblock => superblock.reply ambient call
      | none => .plain 0
  | _ => .plain 0

/-- The histories of mounts with the replies. -/
def hosts : Machine Host (HostEvent × Reply) where
  Initial := mounts.Initial
  Step host event next :=
    mounts.Step host event.1 next ∧ event.2 = host.reply event.1

namespace Superblock

/-- What is saved can be loaded: the live inodes are the first ones, and every
directory has had an entry. -/
def Settled (superblock : Superblock) : Prop :=
  superblock.Compact ∧ ∀ index, superblock.IsDirectory index →
    (superblock.inodes index).size ≠ 0

end Superblock

/-- The steps that a drive takes as well. -/
def Host.Works (host : Host) (event : HostEvent × Reply) : Prop :=
  match event.1 with
  | .init ambient => ∀ length, ambient.grants length = true
  | .call ambient call =>
      ∀ superblock, host.mounted = some superblock →
        RoomyCall superblock (ambient, call) ∧ superblock.WorksOn ambient call
  | .destroy _ =>
      ∀ superblock, host.mounted = some superblock → superblock.Settled
  | .kill => host.disk ≠ some []

theorem Inode.Contains.saved {inode : Inode} {data : List UInt8}
    (contains : inode.Contains data) : inode.saved.Contains data := by
  refine ⟨contains.isFile, contains.size, ?_⟩
  unfold Inode.saved
  dsimp only
  rw [contains.size, Int.toNat_natCast]
  exact List.prefix_take_iff.mpr ⟨contains.content, le_rfl⟩

namespace Superblock

variable {superblock next : Superblock} {ambient : Ambient} {index : Nat}

/-! ## A new volume -/

theorem fresh_shown (granted : ambient.grants initialContentLength = true) :
    ∃ shown : (Superblock.fresh ambient).Shown, shown.volume.find =
      Function.update (fun _ => none) [] (some (.new ambient .directory)) := by
  have space := fresh_namespace granted
  have root : (Superblock.fresh ambient).inodes 0 =
      newInode ambient Inode.zero [slash] directoryMode .dir := by
    rw [fresh_eq granted, addInode_inodes_self]
  have only : ∀ index, (Superblock.fresh ambient).Live index ↔ index = 0 :=
    fresh_inodeBitmap granted
  have isRoot : (Superblock.fresh ambient).pathAt 0 = [slash] := by
    rw [pathAt, root]
    exact PathArray.text_strcpy _ (by decide) (by decide)
  have isDirectory : ((Superblock.fresh ambient).inodes 0).type = .dir := by
    rw [root]
    rfl
  have shown : (Superblock.fresh ambient).Shown := by
    refine ⟨space, ⟨0, ⟨(only 0).mpr rfl, isDirectory⟩, isRoot⟩, ?_⟩
    intro index live
    rw [(only index).mp live]
    exact .inl isDirectory
  refine ⟨shown, ?_⟩
  change (Superblock.fresh ambient).find = _
  have isNames : namesOf [slash] = some [] := rfl
  funext names
  by_cases isEmpty : names = []
  · rw [isEmpty, Function.update_self, find_eq isNames]
    refine space.thingAt_iff.mpr ⟨0, (only 0).mpr rfl, isRoot, ?_⟩
    rw [root]
    rfl
  · rw [Function.update_of_ne isEmpty]
    refine Option.eq_none_iff_forall_ne_some.mpr fun thing found => ?_
    obtain ⟨named, there⟩ := find_eq_some found
    obtain ⟨index, live, isPath, -⟩ := space.thingAt_iff.mp there
    rw [(only index).mp live, isRoot] at isPath
    exact (wellNamed_pathOf isEmpty named).ne_slash isPath.symm

/-! ## Loading -/

/-- The slots that are in use have what the image keeps of them. -/
structure Reloads (superblock next : Superblock) : Prop where
  bitmap : next.inodeBitmap = superblock.inodeBitmap
  amount : next.inodeAmount = superblock.inodeAmount
  inodes : ∀ index, superblock.Live index →
    next.inodes index = (superblock.inodes index).saved

theorem Compact.reloads (compact : superblock.Compact)
    (storable : superblock.Storable ambient) (pointers : Nat → UInt64) :
    superblock.Reloads (Superblock.empty.deserialize ambient
      (superblock.serialize pointers)).superblock := by
  have nonnegative := compact.1
  have front := compact.2.2
  have stored : ∀ record ∈ superblock.recordsFrom pointers
      superblock.inodeAmount.toInt.toNat 0,
      record.2.Backed ∧ (calloc ambient record.2.size.toInt).isSome = true := by
    intro record member
    obtain ⟨slot, visited, rfl⟩ := List.mem_map.mp member
    exact storable slot (List.mem_filter.mp visited).2
  have loaded := deserializeFrom_writeRecords
    (fun record member => (stored record member).1)
    (fun record member => (stored record member).2)
    (length_recordsFrom_le superblock pointers _)
    { Superblock.empty with inodeAmount := superblock.inodeAmount } 0
  have inodes :
      (superblock.recordsFrom pointers
          superblock.inodeAmount.toInt.toNat 0).map Prod.snd =
        (List.range superblock.inodeAmount.toInt.toNat).map
          superblock.inodes := by
    rw [compact.recordsFrom_eq pointers, List.map_map]
    rfl
  rw [deserialize_serialize]
  simp only [loaded, inodes, Bool.false_eq_true, if_false]
  refine ⟨?_, install_inodeAmount _ _ _, fun index live => ?_⟩
  · funext slot
    rw [install_inodeBitmap, Bool.eq_iff_iff, front slot]
    simp only [Superblock.empty, List.length_map, List.length_range,
      Bool.false_or, Bool.and_eq_true, decide_eq_true_eq]
    omega
  · have inside := (front index).mp live
    have read := install_inodes
      { Superblock.empty with inodeAmount := superblock.inodeAmount } 0
      ((List.range superblock.inodeAmount.toInt.toNat).map superblock.inodes)
      index (by rw [List.length_map, List.length_range]; omega)
    simpa using read

/-- The invariant speaks of the slots in use. -/
theorem Namespace.of_live (space : superblock.Namespace)
    (bitmap : next.inodeBitmap = superblock.inodeBitmap)
    (amount : next.inodeAmount = superblock.inodeAmount)
    (paths : ∀ index, superblock.Live index →
      next.pathAt index = superblock.pathAt index)
    (types : ∀ index, superblock.Live index →
      (next.inodes index).type = (superblock.inodes index).type)
    (directories : ∀ index, superblock.IsDirectory index →
      (next.inodes index).content = (superblock.inodes index).content ∧
        (next.inodes index).size = (superblock.inodes index).size) :
    next.Namespace := by
  have live : ∀ index, next.Live index ↔ superblock.Live index := by
    intro index
    unfold Live
    rw [bitmap]
  have child : ∀ directory index,
      next.Child directory index ↔ superblock.Child directory index := by
    intro directory index
    unfold Child
    rw [live]
    constructor
    · rintro ⟨isLive, rest⟩
      rw [paths index isLive] at rest
      exact ⟨isLive, rest⟩
    · rintro ⟨isLive, rest⟩
      rw [paths index isLive]
      exact ⟨isLive, rest⟩
  refine ⟨space.inTable.congr bitmap, ?_, ?_, ?_, ?_, ?_⟩
  · rw [amount, space.counted, Superblock.live, Superblock.live, bitmap]
  · intro index isLive
    have before := (live index).mp isLive
    rw [paths index before]
    exact space.named index before
  · intro index other isLive otherLive same
    have before := (live index).mp isLive
    have otherBefore := (live other).mp otherLive
    rw [paths index before, paths other otherBefore] at same
    exact space.distinct index other before otherBefore same
  · intro index isLive notRoot
    have before := (live index).mp isLive
    rw [paths index before] at notRoot ⊢
    obtain ⟨parent, isParent, path⟩ := space.parents index before notRoot
    exact ⟨parent, ⟨(live parent).mpr isParent.1,
      (types parent isParent.1).trans isParent.2⟩,
      (paths parent isParent.1).trans path⟩
  · rintro index ⟨isLive, isDir⟩
    have before := (live index).mp isLive
    have isDirectory : superblock.IsDirectory index :=
      ⟨before, (types index before).symm.trans isDir⟩
    obtain ⟨names, directory⟩ := space.directories index isDirectory
    obtain ⟨content, size⟩ := directories index isDirectory
    refine ⟨names, ?_, ?_, directory.nodup, fun name => ?_⟩
    · rw [content, size]
      exact directory.buffer
    · rw [content]
      exact directory.holds
    · rw [directory.complete, paths index before]
      constructor
      · rintro ⟨slot, isChild, isName⟩
        exact ⟨slot, (child _ slot).mpr isChild,
          by rw [paths slot isChild.1]; exact isName⟩
      · rintro ⟨slot, isChild, isName⟩
        have childBefore := (child _ slot).mp isChild
        rw [paths slot childBefore.1] at isName
        exact ⟨slot, childBefore, isName⟩

/-- The content of an inode that the image keeps whole. -/
theorem DirectoryAt.saved {names : List (List UInt8)}
    (directory : superblock.DirectoryAt index names)
    (sized : (superblock.inodes index).size ≠ 0) :
    (superblock.inodes index).saved = superblock.inodes index := by
  have exact : (superblock.inodes index).size.toInt =
      (superblock.inodes index).content.length := by
    refine directory.buffer.sized.resolve_right fun zero => sized ?_
    exact Int32.toInt_inj.mp zero.1
  unfold Inode.saved
  rw [exact, Int.toNat_natCast, List.take_length]

/-- A table that is loaded shows the volume that the saved one showed. -/
theorem Reloads.shown (reloads : superblock.Reloads next)
    (shown : superblock.Shown)
    (sized : ∀ index, superblock.IsDirectory index →
      (superblock.inodes index).size ≠ 0) :
    ∃ nextShown : next.Shown, nextShown.volume = shown.volume := by
  have live : ∀ index, next.Live index ↔ superblock.Live index := by
    intro index
    unfold Live
    rw [reloads.bitmap]
  have same : ∀ index, superblock.IsDirectory index →
      next.inodes index = superblock.inodes index := by
    intro index isDirectory
    obtain ⟨names, directory⟩ := shown.space.directories index isDirectory
    rw [reloads.inodes index isDirectory.1,
      directory.saved (sized index isDirectory)]
  have paths : ∀ index, superblock.Live index →
      next.pathAt index = superblock.pathAt index := by
    intro index isLive
    rw [pathAt, reloads.inodes index isLive]
    rfl
  have space : next.Namespace :=
    shown.space.of_live reloads.bitmap reloads.amount paths
      (fun index isLive => by rw [reloads.inodes index isLive]; rfl)
      fun index isDirectory => by rw [same index isDirectory]; exact ⟨rfl, rfl⟩
  have contents : ∀ index, superblock.Live index →
      (next.inodes index).thing = (superblock.inodes index).thing ∧
        ((next.inodes index).type = .dir ∨
          ∃ data, (next.inodes index).Contains data) := by
    intro index isLive
    rcases shown.contents index isLive with isDirectory | ⟨data, contains⟩
    · rw [same index ⟨isLive, isDirectory⟩]
      exact ⟨rfl, .inl isDirectory⟩
    · rw [reloads.inodes index isLive]
      refine ⟨?_, .inr ⟨data, contains.saved⟩⟩
      unfold Inode.thing
      rw [contains.saved.node, contains.node]
      rfl
  have nextShown : next.Shown := by
    refine ⟨space, ?_, fun index isLive =>
      (contents index ((live index).mp isLive)).2⟩
    obtain ⟨index, isDirectory, isRoot⟩ := shown.root
    refine ⟨index, ⟨(live index).mpr isDirectory.1, ?_⟩,
      (paths index isDirectory.1).trans isRoot⟩
    rw [same index isDirectory]
    exact isDirectory.2
  refine ⟨nextShown, ?_⟩
  have sameFind : next.find = superblock.find := by
    funext names
    unfold find
    split
    · refine Option.ext fun thing => ?_
      rw [space.thingAt_iff, shown.space.thingAt_iff]
      constructor
      · rintro ⟨index, isLive, isPath, isThing⟩
        have before := (live index).mp isLive
        exact ⟨index, before, (paths index before).symm.trans isPath,
          (contents index before).1.symm.trans isThing⟩
      · rintro ⟨index, isLive, isPath, isThing⟩
        exact ⟨index, (live index).mpr isLive,
          (paths index isLive).trans isPath,
          (contents index isLive).1.trans isThing⟩
    · rfl
  unfold Shown.volume
  simp only [sameFind]

/-- An image can be loaded where every allocation is granted. -/
theorem Shown.storable (shown : superblock.Shown)
    (grants : ∀ length, ambient.grants length = true) :
    superblock.Storable ambient := by
  intro index live
  have backed : (superblock.inodes index).Backed := by
    rcases shown.contents index live with isDirectory | ⟨data, contains⟩
    · obtain ⟨names, directory⟩ :=
        shown.space.directories index ⟨live, isDirectory⟩
      rcases directory.buffer.sized with exact | zero
      · exact ⟨by omega, exact.le⟩
      · exact ⟨by omega, by omega⟩
    · have enough := contains.content.length_le
      have size := contains.size
      exact ⟨by omega, by omega⟩
  refine ⟨backed, ?_⟩
  unfold calloc
  rw [if_pos ⟨backed.1, grants _⟩]
  rfl

end Superblock

/-! ## Histories of mounts -/

/-- The drive has the volume that the mounted table shows and the one that the
image was saved from. -/
structure Host.Shows (host : Host) (drive : Drive) : Prop where
  idle : host.mounted = none → drive.mounted = none
  mounted : ∀ superblock, host.mounted = some superblock →
    ∃ shown : superblock.Shown, drive.mounted = some shown.volume
  absent : host.disk = none → drive.saved = none
  empty : host.disk = some [] → drive.saved = none ∧ host.mounted ≠ none
  image : ∀ file, host.disk = some file → file ≠ [] →
    ∃ (saved : Superblock) (shown : saved.Shown) (pointers : Nat → UInt64),
      saved.Settled ∧ file = saved.serialize pointers ∧
        drive.saved = some shown.volume

theorem Superblock.serialize_ne_nil (superblock : Superblock)
    (pointers : Nat → UInt64) : superblock.serialize pointers ≠ [] := by
  have width := LittleEndian.length_toBytes 4
    superblock.inodeAmount.toUInt32.toNat
  unfold Superblock.serialize
  intro none
  have length := congrArg List.length none
  rw [List.length_append, width] at length
  simp only [List.length_nil] at length
  omega

theorem Host.Shows.step {host next : Host} {drive : Drive}
    {event : HostEvent × Reply} (shows : host.Shows drive)
    (works : host.Works event) (step : hosts.Step host event next) :
    ∃ after, DriveStep drive event after ∧ next.Shows after := by
  obtain ⟨event, reply⟩ := event
  obtain ⟨goes, isReply⟩ := step
  obtain ⟨saved, mounted⟩ := drive
  dsimp only at goes isReply
  subst isReply
  cases goes with
  | @init disk ambient =>
      have isIdle : mounted = none := shows.idle rfl
      subst isIdle
      cases disk with
      | none =>
          have isNew : saved = none := shows.absent rfl
          subst isNew
          obtain ⟨shown, isFresh⟩ := Superblock.fresh_shown (works _)
          refine ⟨⟨none, some shown.volume⟩, .format isFresh, ?_⟩
          refine ⟨fun idle => (by cases idle), ?_, fun absent => (by cases absent),
            fun _ => ⟨rfl, by simp [fisopfsInit]⟩, ?_⟩
          · rintro _ ⟨⟩
            exact ⟨shown, rfl⟩
          · rintro file ⟨⟩ notEmpty
            exact absurd rfl notEmpty
      | some file =>
          have notEmpty : file ≠ [] := by
            rintro rfl
            exact (shows.empty rfl).2 rfl
          obtain ⟨old, shown, pointers, settled, isImage, isSaved⟩ :=
            shows.image file rfl notEmpty
          have isSaved' : saved = some shown.volume := isSaved
          subst isSaved'
          have reloads := settled.1.reloads (shown.storable works) pointers
          rw [← isImage] at reloads
          obtain ⟨nextShown, same⟩ := reloads.shown shown settled.2
          refine ⟨⟨some shown.volume, some shown.volume⟩, .mount, ?_⟩
          refine ⟨fun idle => (by cases idle), ?_, fun absent => (by cases absent),
            fun empty => ?_, fun file isFile _ => ?_⟩
          · intro superblock isMounted
            obtain rfl := Option.some.inj isMounted
            exact ⟨nextShown, by rw [same]⟩
          · exact absurd (Option.some.inj empty) notEmpty
          · exact ⟨old, shown, pointers, settled,
              (Option.some.inj isFile).symm.trans isImage, rfl⟩
  | @call disk superblock ambient call =>
      obtain ⟨shown, isMounted⟩ := shows.mounted superblock rfl
      have isMounted' : mounted = some shown.volume := isMounted
      subst isMounted'
      obtain ⟨roomy, worksOn⟩ := works superblock rfl
      obtain ⟨nextShown, answers⟩ := shown.answered roomy worksOn
      refine ⟨⟨saved, some nextShown.volume⟩, .call answers, ?_⟩
      refine ⟨fun idle => (by cases idle), ?_, shows.absent,
        fun empty => ⟨(shows.empty empty).1, by simp⟩, shows.image⟩
      rintro _ ⟨⟩
      exact ⟨nextShown, rfl⟩
  | @destroy disk superblock pointers =>
      obtain ⟨shown, isMounted⟩ := shows.mounted superblock rfl
      have isMounted' : mounted = some shown.volume := isMounted
      subst isMounted'
      refine ⟨⟨some shown.volume, none⟩, .save, fun _ => rfl, ?_,
        fun absent => (by cases absent), fun empty => ?_, fun file isFile _ => ?_⟩
      · rintro _ ⟨⟩
      · exact absurd (Option.some.inj empty)
          (superblock.serialize_ne_nil pointers)
      · exact ⟨superblock, shown, pointers, works superblock rfl,
          (Option.some.inj isFile).symm, rfl⟩
  | @kill disk superblock =>
      obtain ⟨shown, isMounted⟩ := shows.mounted superblock rfl
      have isMounted' : mounted = some shown.volume := isMounted
      subst isMounted'
      refine ⟨⟨saved, none⟩, .kill, fun _ => rfl, ?_, shows.absent,
        fun empty => absurd empty works, shows.image⟩
      rintro _ ⟨⟩

theorem hosts_refine_drives :
    hosts.Refines drives Host.Works Host.Shows where
  initial := by
    rintro _ rfl
    refine ⟨⟨none, none⟩, rfl, fun _ => rfl, ?_, fun _ => rfl, ?_, ?_⟩
    · rintro _ ⟨⟩
    · rintro ⟨⟩
    · rintro _ ⟨⟩
  step := fun _ _ _ _ shows works step => shows.step works step

/-- Every history of mounts is a history of a drive: each reply is the one that the
volume in use gives, a mount brings back the volume that was saved last, and a
session that is killed loses what was not saved. -/
theorem drives_run {host : Host} {events : List (HostEvent × Reply)}
    (run : hosts.Run Host.Works ⟨none, none⟩ events host) :
    ∃ drive, drives.Run Machine.Unrestricted ⟨none, none⟩ events drive ∧
      host.Shows drive := by
  obtain ⟨_, drive, rfl, steps, shows⟩ := hosts_refine_drives.run rfl run
  exact ⟨drive, steps, shows⟩

theorem settled_savedSession (shown : savedSession.Shown) :
    savedSession.Settled := by
  have amount : savedSession.inodeAmount.toInt = 2 := by decide +kernel
  have first : savedSession.inodeBitmap 0 = true ∧
      savedSession.inodeBitmap 1 = true := by decide +kernel
  have few : [0, 1].Perm savedSession.live := by
    have subset : [0, 1] ⊆ savedSession.live := by
      intro index member
      rcases List.mem_cons.mp member with rfl | member
      · exact Superblock.mem_live.mpr ⟨by decide, first.1⟩
      · rw [List.mem_singleton.mp member]
        exact Superblock.mem_live.mpr ⟨by decide, first.2⟩
    refine (List.subperm_of_subset (by decide) subset).perm_of_length_le ?_
    have counted := shown.space.counted
    rw [amount] at counted
    simp only [List.length_cons, List.length_nil]
    omega
  have live : ∀ index, savedSession.inodeBitmap index = true ↔
      index = 0 ∨ index = 1 := by
    intro index
    have isMember := few.mem_iff (a := index)
    rw [Superblock.mem_live] at isMember
    constructor
    · intro isLive
      simpa using isMember.mpr ⟨shown.space.inTable index isLive, isLive⟩
    · rintro (rfl | rfl)
      · exact first.1
      · exact first.2
  refine ⟨⟨by omega, by rw [amount]; decide, fun index => ?_⟩, ?_⟩
  · rw [live, amount]
    omega
  · rintro index ⟨isLive, isDirectory⟩
    have types : (savedSession.inodes 0).size ≠ 0 ∧
        (savedSession.inodes 1).type ≠ .dir := by decide +kernel
    rcases (live index).mp isLive with rfl | rfl
    · exact types.1
    · exact absurd isDirectory types.2

theorem drives_run_reload : ∃ drive,
    drives.Run Machine.Unrestricted ⟨none, none⟩
        [(.init .generous, .plain 0),
          (.call .generous createA,
            (Superblock.fresh .generous).reply .generous createA),
          (.destroy fun _ => 0, .plain 0), (.init .generous, .plain 0)]
        drive ∧
      (fisopfsInit .generous
        (some (savedSession.serialize fun _ => 0))).Shows drive := by
  have roomy : RoomyCall (.fresh .generous) (.generous, createA) := by
    have checked : (Superblock.fresh .generous).Guaranteed createA ∧
        ¬ (Superblock.fresh .generous).FillsParent createA := by decide +kernel
    exact ⟨⟨fun _ => rfl, checked.1⟩, checked.2⟩
  obtain ⟨shown, -⟩ := @Superblock.fresh_shown .generous rfl
  obtain ⟨savedShown, -⟩ := shown.answered roomy trivial
  have start : hosts.Run Host.Works ⟨none, none⟩ [] ⟨none, none⟩ := .nil _
  have first := start.snoc (show Host.Works _ (.init .generous, .plain 0) from
    fun _ => rfl) ⟨HostStep.init .generous, rfl⟩
  have created := first.snoc (show Host.Works
      ⟨some [], some (.fresh .generous)⟩ (.call .generous createA, _) from by
    rintro _ ⟨⟩
    exact ⟨roomy, trivial⟩) ⟨HostStep.call .generous createA, rfl⟩
  have saved := created.snoc (show Host.Works
      ⟨some [], some savedSession⟩ (.destroy fun _ => 0, .plain 0) from by
    rintro _ ⟨⟩
    exact settled_savedSession savedShown) ⟨HostStep.destroy fun _ => 0, rfl⟩
  have again := saved.snoc (show Host.Works
      ⟨some (savedSession.serialize fun _ => 0), none⟩
        (.init .generous, .plain 0) from fun _ => rfl)
    ⟨HostStep.init .generous, rfl⟩
  exact drives_run again

end FeaturesOS.FileSystem
