import EntityStore.Proofs.Layout.Refinement
import EntityStore.Proofs.Layout.Tuples
import EntityStore.Proofs.Settings
import EntityStore.Proofs.Singles
import EntityStore.Proofs.Traces
import EntityStore.Proofs.World.Capacity
import EntityStore.Proofs.World.Cells
import EntityStore.Proofs.World.Coherent
import EntityStore.Proofs.World.Culling
import EntityStore.Proofs.World.Emptying
import EntityStore.Proofs.World.Entities
import EntityStore.Proofs.World.Erasures
import EntityStore.Proofs.World.Handles
import EntityStore.Proofs.World.Insertion
import EntityStore.Proofs.World.Misuse
import EntityStore.Proofs.World.Numbering
import EntityStore.Proofs.World.Order
import EntityStore.Proofs.World.Recycling
import EntityStore.Proofs.World.Resizing
import EntityStore.Proofs.World.Tours
