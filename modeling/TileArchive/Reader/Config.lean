import TileArchive.Reader.Error

/-!
# `TileArchive.Reader.Config`: how an archive is read

A reader has a cache for payloads, one for directories, and a threshold for joining the
reads of neighbouring payloads.

The configuration is checked once, before anything is read. What is checked is what the rest
relies on: caches that can hold something, and a joined read that is no longer than one read can be.
A configuration may be read from JSON, as a record whose three fields all have to be there.
-/

set_option autoImplicit false

namespace TileArchive

open Json

/-- How an archive is read. The two caches are bounded apart, so payloads cannot push
directories out. A threshold of nothing has every payload read on its own. -/
structure ReaderConfig where
  /-- The bounds of the payload cache; a payload weighs as much as it has bytes. -/
  tileCache : CacheConfig
  /-- The bounds of the directory cache; a directory weighs by the number of its rows. -/
  directoryCache : CacheConfig
  /-- Reads of payloads are joined while what they span stays below this. -/
  coalesceThreshold : UInt64
deriving DecidableEq, Repr, Inhabited

namespace ReaderConfig

/-- How an archive is read unless said otherwise. -/
def standard : ReaderConfig := ⟨.standard, .standard, 8192⟩

/-- Checks that the configuration makes sense. A joined read is one read, so it cannot be
longer than a read can be. -/
def validate (c : ReaderConfig) : Except ReadError Unit := do
  c.tileCache.validate.mapError .cache
  c.directoryCache.validate.mapError .cache
  if Word.largest32 < c.coalesceThreshold.toNat then
    throw (.configuration (.thresholdTooLarge c.coalesceThreshold))

/-- Reads a configuration from JSON. -/
def read? {α : Type} [Viewable α] (a : α) : Option ReaderConfig := do
  match ← record? ["tile_cache", "directory_cache", "coalesce_threshold"] a with
  | [some tiles, some directories, some threshold] =>
    return ⟨← CacheConfig.read? tiles, ← CacheConfig.read? directories,
      UInt64.ofNat (← natural? Word.largest threshold)⟩
  | _ => none

/-- The configuration as a JSON value. -/
def value (c : ReaderConfig) : Value :=
  .object [("tile_cache", c.tileCache.value), ("directory_cache", c.directoryCache.value),
    ("coalesce_threshold", .number (.natural c.coalesceThreshold))]

/-- The configuration as shown to people. -/
def display (c : ReaderConfig) : String :=
  s!"ReaderConfig \x7b tile_cache: {c.tileCache.display}, directory_cache: "
    ++ s!"{c.directoryCache.display}, coalesce_threshold: {c.coalesceThreshold.toNat} \x7d"

end ReaderConfig

end TileArchive
