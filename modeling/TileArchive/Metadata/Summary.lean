import TileArchive.Header
import TileArchive.Metadata.Document

/-!
# `TileArchive.Metadata.Summary`: what header and metadata say together

A summary takes the fields that map clients know by name out of the metadata and joins them
with the header.

Five names have a place of their own, and their fields are not listed among the others again. The
tag of the payload type comes from the header, and so do bounds, center, zooms and compression. A
field of the metadata with one of these names, such as `bounds`, is one of the others like any
unknown field.
-/

set_option autoImplicit false

namespace TileArchive

/-- What header and metadata say about an archive. Five fields of the metadata have places
of their own and are taken out of the others, so that each field of the metadata is in one
place only. -/
structure Summary where
  name : Option String
  description : Option String
  attribution : Option String
  version : Option String
  /-- Whether the archive is a base layer or an overlay. -/
  kind : Option String
  /-- The tag of the payload type, where the type is known. -/
  format : Option String
  southWest : Position
  northEast : Position
  center : Position
  centerZoom : UInt8
  minZoom : UInt8
  maxZoom : UInt8
  vectorLayers : List VectorLayer
  /-- The fields that have no place of their own. -/
  others : Dictionary String
  tileCompression : Compression
deriving DecidableEq

namespace Summary

/-- The metadata fields with a place of their own. -/
def liftedNames : List String := ["name", "description", "attribution", "version", "type"]

/-- Joins header and metadata. -/
def join (h : Header) (m : Metadata) : Summary where
  name := m.other.get? "name"
  description := m.other.get? "description"
  attribution := m.other.get? "attribution"
  version := m.other.get? "version"
  kind := m.other.get? "type"
  format := h.tileType.format?
  southWest := h.southWest
  northEast := h.northEast
  center := h.center
  centerZoom := h.centerZoom
  minZoom := h.minZoom
  maxZoom := h.maxZoom
  vectorLayers := m.vectorLayers
  others := liftedNames.foldl Dictionary.erase m.other
  tileCompression := h.tileCompression

end Summary

end TileArchive
