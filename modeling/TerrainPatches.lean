import TerrainPatches.Landscape
import TerrainPatches.Source.Marked
import TerrainPatches.Proofs.Mesh.Drawing
import TerrainPatches.Proofs.Seamless
import TerrainPatches.Proofs.Cache.Order
import TerrainPatches.Proofs.Single.Order
import TerrainPatches.Proofs.Landscape.Siblings
import TerrainPatches.Proofs.Workshop.Steps
import TerrainPatches.Proofs.Landscape.Building
import TerrainPatches.Proofs.Landscape.Runs
import TerrainPatches.Proofs.Landscape.Sharing
import TerrainPatches.Proofs.Landscape.Release
import TerrainPatches.Proofs.Landscape.Sizes
import TerrainPatches.Proofs.Plan
import TerrainPatches.Proofs.Workshop.Planned
import TerrainPatches.Proofs.Landscape.Transparency
import TerrainPatches.Proofs.Workshop.Questions
import TerrainPatches.Proofs.Landscape.Accounts
import TerrainPatches.Proofs.Quadtree.Partition
import TerrainPatches.Proofs.Quadtree.Descent
import TerrainPatches.Proofs.Landscape.Detail
import TerrainPatches.Proofs.Bakery.Frames
import TerrainPatches.Proofs.Landscape.Bakes
import TerrainPatches.Proofs.Device.Handles
import TerrainPatches.Proofs.Workshop.Pieces
import TerrainPatches.Proofs.Landscape.Handles
import TerrainPatches.Proofs.Landscape.Reach
import TerrainPatches.Proofs.Landscape.Eviction
import TerrainPatches.Proofs.Landscape.WellFormed
import TerrainPatches.Proofs.Landscape.Residency
import TerrainPatches.Proofs.Landscape.Setup
import TerrainPatches.Proofs.Quadtree.Frames
import TerrainPatches.Proofs.Workshop.Grids
import TerrainPatches.Proofs.Workshop.Builder
import TerrainPatches.Proofs.Workshop.Passes
import TerrainPatches.Proofs.Landscape.Uploads
import TerrainPatches.Proofs.Workshop.Buffers
import TerrainPatches.Proofs.Cache.Expiry
import TerrainPatches.Proofs.Mesh.Encoding
import TerrainPatches.Proofs.Seams.Edits
