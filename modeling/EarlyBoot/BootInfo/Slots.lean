import EarlyBoot.BootInfo

/-!
# `EarlyBoot.BootInfo.Slots`: what a list of tags says

What is known after a list of tags can be said slot by slot, without going
through the tags one after the other: each slot holds what the last tag of its
kind says that the decoder of the kind accepts. Which tags are refused, and why,
is a property of each tag alone.

Main statements:

* `accept_eq_error` : a tag is refused for its own reason, whatever is known;
* `accept_ofTags` : one more accepted tag fills its slot;
* `ofTags_of_refused` : one more refused tag changes nothing.
-/

set_option autoImplicit false

namespace EarlyBoot

variable {α : Type}

/-- What the last tag of a kind says that `decode` accepts. -/
def lastAccepted (kind : TagKind) (decode : RawTag → Except TagRejection α)
    (tags : List RawTag) : Option α :=
  (tags.filterMap fun tag => if tag.kind = kind then (decode tag).toOption else none).getLast?

/-- Why a decoder refused a tag, if it did. -/
def refusalOf? : Except TagRejection α → Option TagRejection
  | .ok _         => none
  | .error reason => some reason

/-- Why the decoder of its kind refuses a tag; tags without a slot are not refused. -/
def RawTag.refusal? (tag : RawTag) : Option TagRejection :=
  match tag.kind with
  | .memoryMap   => refusalOf? (MemoryMap.decode tag)
  | .framebuffer => refusalOf? (Framebuffer.decode tag)
  | .commandLine => refusalOf? (BootText.decode tag)
  | .acpiRoot    => refusalOf? (AcpiRoot.decode tag)
  | .processors  => refusalOf? (Processors.decode tag)
  | .ramdisk     => refusalOf? (Ramdisk.decode tag)
  | .bootloader  => refusalOf? (BootText.decode tag)
  | .closing | .modules | .bootTime | .kernelFile | .efiSystemTable | .vendor _ | .unknown _ =>
      none

/-- The tags in front of the first closing one. -/
def beforeClosing (tags : List RawTag) : List RawTag :=
  tags.takeWhile fun tag => tag.kind ≠ .closing

/-- The refused tags, each with the reason. -/
def refusals (tags : List RawTag) : List (RawTag × TagRejection) :=
  tags.filterMap fun tag => tag.refusal?.map (tag, ·)

namespace BootInfo

/-- What tags say, slot by slot. -/
def ofTags (tags : List RawTag) : BootInfo :=
  let memoryMap := lastAccepted .memoryMap MemoryMap.decode tags
  let processors := lastAccepted .processors Processors.decode tags
  { memoryMap
    framebuffer := lastAccepted .framebuffer Framebuffer.decode tags
    commandLine := lastAccepted .commandLine BootText.decode tags
    acpiRoot := lastAccepted .acpiRoot AcpiRoot.decode tags
    processors
    ramdisk := lastAccepted .ramdisk Ramdisk.decode tags
    bootloader := lastAccepted .bootloader BootText.decode tags
    usableMebibytes := (memoryMap.map MemoryMap.usableMebibytes).getD 0
    processorCount := (processors.map Processors.count).getD 1 }

end BootInfo

/-! ### One more tag -/

/-- In an empty list no tag is accepted, so `lastAccepted` has no value to return. -/
@[simp]
theorem lastAccepted_nil {kind : TagKind} {decode : RawTag → Except TagRejection α} :
    lastAccepted kind decode [] = none := rfl

/-- Put one more tag behind the list. If it is of the kind and `decode` accepts it, then
`lastAccepted` returns its value; otherwise it returns what it returned for the list before. -/
theorem lastAccepted_append {kind : TagKind} {decode : RawTag → Except TagRejection α}
    (tags : List RawTag) (tag : RawTag) :
    lastAccepted kind decode (tags ++ [tag]) =
      (if tag.kind = kind then (decode tag).toOption else none).or
        (lastAccepted kind decode tags) := by
  unfold lastAccepted
  rw [List.filterMap_append, List.getLast?_append]
  congr 1
  cases h : (if tag.kind = kind then (decode tag).toOption else none) <;> simp [h]

namespace BootInfo

/-- Without tags nothing is known: `ofTags` of the empty list is `unknown`, which has no slot
filled. -/
theorem ofTags_nil : ofTags [] = unknown := rfl

/-- A decoder's result has the reason `reason` exactly if the result is that error. A value has no
reason at all. -/
@[simp]
theorem refusalOf?_eq_some {result : Except TagRejection α} {reason : TagRejection} :
    refusalOf? result = some reason ↔ result = .error reason := by
  cases result <;> simp [refusalOf?]

/-- The step `BootInfo.accept` refuses a tag exactly with the reason that `RawTag.refusal?` finds in
the tag. So the refusal depends on the tag alone and not on what is known before it. -/
theorem accept_eq_error {info : BootInfo} {tag : RawTag} {reason : TagRejection} :
    info.accept tag = .error reason ↔ tag.refusal? = some reason := by
  cases hk : tag.kind <;> simp only [accept, RawTag.refusal?, hk, refusalOf?_eq_some]
  case memoryMap => cases MemoryMap.decode tag <;> simp [bind, Except.bind, pure, Except.pure]
  case framebuffer => cases Framebuffer.decode tag <;> simp [bind, Except.bind, pure, Except.pure]
  case commandLine => cases BootText.decode tag <;> simp [bind, Except.bind, pure, Except.pure]
  case acpiRoot => cases AcpiRoot.decode tag <;> simp [bind, Except.bind, pure, Except.pure]
  case processors => cases Processors.decode tag <;> simp [bind, Except.bind, pure, Except.pure]
  case ramdisk => cases Ramdisk.decode tag <;> simp [bind, Except.bind, pure, Except.pure]
  case bootloader => cases BootText.decode tag <;> simp [bind, Except.bind, pure, Except.pure]
  all_goals simp

/-- Put one more tag behind the list, and suppose that `RawTag.refusal?` finds a reason in it. Then
`ofTags` is the same with and without that tag. -/
theorem ofTags_of_refused {tag : RawTag} {reason : TagRejection} (tags : List RawTag)
    (h : tag.refusal? = some reason) : ofTags (tags ++ [tag]) = ofTags tags := by
  cases hk : tag.kind <;> simp only [RawTag.refusal?, hk, refusalOf?_eq_some, reduceCtorEq] at h <;>
    simp [ofTags, lastAccepted_append, hk, h, Except.toOption]

/-- Put one more tag behind the list, and suppose that `BootInfo.accept` takes it. Then the record
it returns is `ofTags` of the longer list: one step of the fold is one more tag for the slots. -/
theorem accept_ofTags {tags : List RawTag} {tag : RawTag} {info : BootInfo}
    (h : (ofTags tags).accept tag = .ok info) : info = ofTags (tags ++ [tag]) := by
  -- Seven of the kinds decode, fill a slot and succeed, so one fact about `>>=` serves them all.
  have bind_ok {β : Type} {x : Except TagRejection β} {f : β → BootInfo}
      (h : (x >>= fun b => pure (f b)) = .ok info) : ∃ b, x = .ok b ∧ f b = info := by
    cases x with
    | error reason => simp [bind, Except.bind] at h
    | ok b => exact ⟨b, rfl, by simpa [bind, Except.bind, pure, Except.pure] using h⟩
  cases hk : tag.kind <;> simp only [accept, hk] at h
  case closing | modules | bootTime | kernelFile | efiSystemTable | vendor | unknown =>
    simp only [Except.ok.injEq] at h
    simp [← h, ofTags, lastAccepted_append, hk]
  all_goals
    obtain ⟨b, hd, rfl⟩ := bind_ok h
    simp [ofTags, lastAccepted_append, hk, hd, Except.toOption]

end BootInfo

end EarlyBoot
