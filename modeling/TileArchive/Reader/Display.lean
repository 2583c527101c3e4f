import TileArchive.Reader.Basic

/-!
# `TileArchive.Reader.Display`: an open archive as shown to people

The text shows what an archive is and how much its caches hold, but not what they hold.
-/

set_option autoImplicit false

namespace TileArchive

/-- A name and some fields between braces. -/
def displayRecord (name : String) (fields : List (String × String)) : String :=
  name ++ " \x7b " ++ ", ".intercalate (fields.map fun f => f.1 ++ ": " ++ f.2) ++ " \x7d"

/-- A section as two fields. -/
def Section.displayFields (s : Section) (name : String) : List (String × String) :=
  [(name ++ "_offset", toString s.offset.toNat), (name ++ "_length", toString s.length.toNat)]

/-- A position as two fields. -/
def Position.displayFields (p : Position) (corner : String) : List (String × String) :=
  [(corner ++ "_lon_e7", toString p.longitude.toInt),
    (corner ++ "_lat_e7", toString p.latitude.toInt)]

/-- A header as shown to people. -/
def Header.display (h : Header) : String :=
  displayRecord "Header" (
    [("version", toString h.version.toNat)]
    ++ h.rootDirectory.displayFields "root_dir"
    ++ h.metadata.displayFields "json_metadata"
    ++ h.leafDirectories.displayFields "leaf_dirs"
    ++ h.tileData.displayFields "tile_data"
    ++ [("addressed_tiles_count", toString h.addressedTiles.toNat),
      ("tile_entries_count", toString h.tileEntries.toNat),
      ("tile_contents_count", toString h.tileContents.toNat),
      ("clustered", if h.clustered then "true" else "false"),
      ("internal_compression", h.internalCompression.name),
      ("tile_compression", h.tileCompression.name),
      ("tile_type", h.tileType.name),
      ("min_zoom", toString h.minZoom.toNat),
      ("max_zoom", toString h.maxZoom.toNat)]
    ++ h.southWest.displayFields "min" ++ h.northEast.displayFields "max"
    ++ [("center_zoom", toString h.centerZoom.toNat)] ++ h.center.displayFields "center")

/-- An open archive as shown to people. -/
def Reader.display (r : Reader) : String :=
  s!"PmtilesReader \x7b header: {r.header.display}, config: {r.config.display}, "
    ++ s!"directories: {r.directories.cache.display}, tiles: {r.payloads.cache.display}, .. \x7d"

end TileArchive
